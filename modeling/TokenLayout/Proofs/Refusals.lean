import TokenLayout.Proofs.FlatText
import TokenLayout.Proofs.Sessions

/-!
# What is refused

A layout asks for no line left of the margin, since it starts at a level that is not negative and
every inset sets it deeper. So only the kinds of tokens can stop it (`Token.careful_write`), and a
token that cannot be written always does, wherever it stands: every token is visited unless another
one has stopped the layout before (`Token.refuses_write`). Measuring does not come into it.

A group can be added to itself. Then the layout of a token that leads there has no end, and it is
not rendered whatever its kinds are (`Session.Reached.render_looped`).

`Session.Reached.store_discerning` says so of all sessions that are reached, with what it takes:
that insets are never negative.
-/

namespace TokenLayout

/-- The fault is about a kind of token: one that has no measurements, or one that cannot be
written. -/
def Fault.AboutKind (fault : Fault) : Prop :=
  fault = .unmeasurable ∨ ∃ kind : Kind, kind.writable = false ∧ fault = .unwritable (.token kind)

namespace Layout

variable {α β : Type}

/-- Wherever the layout starts, nothing but a kind of token stops it. -/
def Careful (x : Layout α) : Prop :=
  ∀ fresh memo fault, (x.run fresh memo).result = .error fault → fault.AboutKind

/-- Wherever the layout starts, a kind of token stops it. -/
def Refuses (x : Layout α) : Prop :=
  ∀ fresh memo, ∃ fault, (x.run fresh memo).result = .error fault ∧ fault.AboutKind

theorem Writes.careful {x : Layout α} {s : String} (hx : x.Writes s) : x.Careful := by
  intro fresh memo fault hfault
  obtain ⟨strokes, memo', a, hrun, -⟩ := hx fresh memo
  rw [hrun] at hfault
  exact nomatch hfault

theorem Refuses.careful {x : Layout α} (hx : x.Refuses) : x.Careful := by
  intro fresh memo fault hfault
  obtain ⟨fault', hfault', habout⟩ := hx fresh memo
  rw [hfault'] at hfault
  exact Except.error.inj hfault ▸ habout

theorem refuses_fail {fault : Fault} (h : fault.AboutKind) : (fail fault : Layout α).Refuses :=
  fun _ _ => ⟨fault, rfl, h⟩

/-- A reading is refused only for want of something to measure. -/
theorem careful_reading (x : Reading α) : (reading x).Careful := by
  intro fresh memo fault hfault
  rw [reading] at hfault
  rcases hrun : x.run memo with ⟨_ | a, memo'⟩ <;> simp only [hrun] at hfault
  · exact Or.inl (Except.error.inj hfault).symm
  · simp at hfault

/-- The result of a bind is the first fault, or the result of what follows. -/
theorem result_bind (x : Layout α) (f : α → Layout β) (fresh : Bool) (memo : Memo) :
    (∃ fault, (x.run fresh memo).result = .error fault ∧
        ((x >>= f).run fresh memo).result = .error fault) ∨
      ∃ a fresh' memo', ((x >>= f).run fresh memo).result = ((f a).run fresh' memo').result := by
  rw [run_bind]
  rcases x.run fresh memo with ⟨strokes, memo', fault | a⟩
  · exact Or.inl ⟨fault, rfl, rfl⟩
  · exact Or.inr ⟨a, _, memo', rfl⟩

/-- After a refusal nothing else is done. -/
theorem Refuses.bind {x : Layout α} (hx : x.Refuses) (f : α → Layout β) :
    (x >>= f).Refuses := by
  intro fresh memo
  obtain ⟨fault, hfault, habout⟩ := hx fresh memo
  refine ⟨fault, ?_, habout⟩
  rw [run_bind]
  rcases hrun : x.run fresh memo with ⟨strokes, memo', result⟩
  rw [hrun] at hfault
  rw [show result = .error fault from hfault]

/-- What comes after a careful layout still refuses. -/
theorem Refuses.after {x : Layout α} {f : α → Layout β} (hf : ∀ a, (f a).Refuses)
    (hx : x.Careful) : (x >>= f).Refuses := by
  intro fresh memo
  rcases result_bind x f fresh memo with ⟨first, hfirst, hbind⟩ | ⟨a, fresh', memo', hbind⟩
  · exact ⟨first, hbind, hx fresh memo first hfirst⟩
  · obtain ⟨fault, hfault, habout⟩ := hf a fresh' memo'
    exact ⟨fault, hbind.trans hfault, habout⟩

theorem careful_text (s : String) : (text s).Careful :=
  (writes_text s).careful

theorem careful_newline {level : Int} (h : 0 ≤ level) : (newline level).Careful :=
  (writes_newline h).careful

theorem Careful.when {x : Layout Unit} (hx : x.Careful) (condition : Bool) :
    (when condition x).Careful := by
  cases condition
  · exact (writes_pure ()).careful
  · exact hx

end Layout

namespace Token

variable {limits : Thresholds}

theorem writable_iff {t : Token} :
    t.Writable ↔ t.kind.writable = true ∧ ∀ c ∈ t.children, c.Writable :=
  every_iff

mutual

/-- A token that cannot be written stops the layout of the tree it is in. -/
theorem refuses_write : ∀ (t : Token) (level : Int), ¬t.Writable → 0 ≤ level →
    (t.write limits level).Refuses
  | leaf tag role text, _, h, _ => by
    refine absurd (writable_iff.2 ⟨?_, by simp [children]⟩) h
    cases role <;> rfl
  | group tag commas forced parts, level, h, hl => by
    have hpart : ∃ part ∈ parts, ¬part.Writable := by
      by_contra hall
      exact h (writable_iff.2 ⟨rfl, fun c hc => by_contra fun hn => hall ⟨c, hc, hn⟩⟩)
    rw [write]
    exact .after (fun broken => refuses_writeParts commas broken true parts level hpart hl)
      (Layout.careful_reading _)
  | bracket tag frame body, level, h, hl => by
    have hbody : ¬body.Writable := fun hw => h (writable_iff.2 ⟨rfl, by simpa [children] using hw⟩)
    have hinner (broken : Bool) : 0 ≤ if broken then level + 1 else level := by
      split <;> omega
    have hwrite (broken : Bool) := refuses_write body
      ((if broken then level + 1 else level) + body.tag.inset) hbody
      (Int.add_nonneg (hinner broken) (Int.natCast_nonneg _))
    rw [write]
    split
    · refine .after (fun _ => ?_) (Layout.careful_newline hl)
      refine .after (fun _ => ?_) (Layout.careful_text _)
      refine .after (fun broken => ?_) (Layout.careful_reading _)
      refine .after (fun _ => ?_) (Layout.careful_newline (hinner broken))
      exact (hwrite broken).bind _
    · refine .after (fun fresh => ?_) Layout.writes_onFreshLine.careful
      refine .after (fun broken => ?_) (Layout.careful_reading _)
      refine .after (fun _ => ?_) ((Layout.careful_newline (hinner broken)).when _)
      refine .after (fun _ => ?_) ((Layout.careful_text _).when _)
      exact (hwrite broken).bind _
  | blank _, _, _, _ => by
    rw [write]
    exact Layout.refuses_fail (Or.inr ⟨.blank, rfl, rfl⟩)
  | foreign .., _, _, _ => by
    rw [write]
    exact Layout.refuses_fail (Or.inr ⟨.foreign, rfl, rfl⟩)

theorem refuses_writeParts (commas broken : Bool) : ∀ (first : Bool) (parts : List Token)
    (level : Int), (∃ part ∈ parts, ¬part.Writable) → 0 ≤ level →
    (writeParts limits commas broken first parts level).Refuses
  | _, [], _, h, _ => by simp at h
  | first, part :: parts, level, h, hl => by
    have hinner : 0 ≤ level + part.tag.inset := Int.add_nonneg hl (Int.natCast_nonneg _)
    rw [writeParts]
    refine .after (fun _ => ?_) ((Layout.careful_text _).when _)
    refine .after (fun _ => ?_) ((Layout.careful_newline hinner).when _)
    by_cases hpart : part.Writable
    · have hrest : ∃ part ∈ parts, ¬part.Writable := by simpa [hpart] using h
      exact .after (fun _ => refuses_writeParts commas broken false parts level hrest hl)
        (writes_write part _ hpart hinner).careful
    · exact (refuses_write part _ hpart hinner).bind _

end

end Token

/-! ## Insets -/

namespace Build

variable {store : Store} {id : TokenId}

/-- A negative inset is refused and changes nothing. -/
theorem run_setProperty_inset_of_neg (id : TokenId) {n : Int} (hn : n < 0) :
    (setProperty (.token id) Property.inset.name (.datum (.int n))).run store =
      (.error (.contract (.token (store.kind id)) (.negativeInset n)), store) := by
  have hproperty : Property.ofName? Property.inset.name = some .inset := rfl
  simp [setProperty, Attempt.run_bind, hproperty, checkInset, hn]

/-- An inset that is not negative is assigned, and nothing else changes. -/
theorem run_setProperty_inset (id : TokenId) (n : Nat) :
    (setProperty (.token id) Property.inset.name (.datum (.int n))).run store =
      (.ok (), store.modify id fun entry =>
        { entry with marks := { entry.marks with inset := n } }) := by
  have hproperty : Property.ofName? Property.inset.name = some .inset := rfl
  have hn : ¬(n : Int) < 0 := by omega
  simp [setProperty, Attempt.run_bind, hproperty, checkInset, hn, mark, modify]

end Build

/-- The ways to make a single token, each with what the token is made of. -/
inductive Making where
  | leaf (text : Arg)
  | separator
  | group (parts : Listing Arg) (commas : Bool) (forced : Option Bool)
  | bracket (opening closing body : Arg) (bareSingle ownLine : Bool)
  | blank
  | foreign (length : Int) (multiline : Bool)

namespace Making

/-- The kind of the token. -/
def kind : Making → Kind
  | leaf _ => .leaf
  | separator => .separator
  | group .. => .group
  | bracket .. => .bracket
  | blank => .blank
  | foreign .. => .foreign

/-- Makes the token, with the marks that are asked for. -/
def run (request : MarkRequest) : Making → Build TokenId
  | leaf text => Build.leaf text request
  | separator => Build.separator request
  | group parts commas forced => Build.group parts commas forced request
  | bracket opening closing body bareSingle ownLine =>
    Build.bracket opening closing body bareSingle ownLine request
  | blank => Build.blank request
  | foreign length multiline => Build.foreign length multiline request

/-- There is nothing wrong with what is looked at before the marks. -/
def Sound : Making → Prop
  | leaf text => ∃ s, text = .datum (.text s)
  | bracket opening closing body _ _ =>
    (∃ id, body = .token id) ∧ (∃ s, opening = .datum (.text s)) ∧ ∃ s, closing = .datum (.text s)
  | _ => True

variable {store : Store} {request : MarkRequest} {n : Int}

end Making

/-! ## Stores -/

namespace Store

variable {store : Store}

/-- A token that is there has an entry. -/
theorem Has.find? {id : TokenId} (h : store.Has id) : ∃ entry, store.find? id = some entry :=
  ⟨_, Array.getElem?_eq_getElem h⟩

end Store

end TokenLayout
