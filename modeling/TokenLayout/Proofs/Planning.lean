import TokenLayout.Proofs.Filling
import TokenLayout.Store.Measure

/-!
# Layouts are planned by decisions

The strokes of a layout and its result depend on a store only through the decisions that are found
in it, since what a layout reads it also fills, and filling changes nothing that is found. `Plans`
says what a layout does in all stores with the same decisions. Every token of a store has a plan
(`Token.steady_write`), also one that ends with a fault.
-/

namespace TokenLayout

/-- Two stores have the same tokens, and the same decisions are found in both. -/
structure Store.Agrees (limits : Thresholds) (store store' : Store) : Prop where
  entries : store'.entries = store.entries
  found : ∀ t : Token, t.StandsIn store →
    t.multilineIn? limits store'.memo = t.multilineIn? limits store.memo

namespace Store.Agrees

variable {limits : Thresholds} {store store' store'' : Store}

theorem refl (store : Store) : store.Agrees limits store :=
  ⟨rfl, fun _ _ => rfl⟩

theorem trans (h : store.Agrees limits store') (h' : store'.Agrees limits store'') :
    store.Agrees limits store'' :=
  ⟨h'.entries.trans h.entries, fun t ht =>
    (h'.found t (ht.of_entries_eq h.entries)).trans (h.found t ht)⟩

/-- Filling cells under the thresholds leaves every decision as it would be taken anyway. -/
theorem of_fills (h : Fills limits store store') : store.Agrees limits store' :=
  ⟨h.entries_eq, fun _ ht => h.multilineIn?_eq ht⟩

end Store.Agrees

namespace Layout

variable {α β : Type} {limits : Thresholds} {store : Store} {fresh : Bool}

/-- In every store that agrees with `store`, the layout asks for `strokes` and comes to `result`,
and only fills cells. -/
def Plans (limits : Thresholds) (store : Store) (x : Layout α) (fresh : Bool)
    (strokes : List Stroke) (result : Except Fault α) : Prop :=
  ∀ store' : Store, store.Agrees limits store' → ∃ memo,
    x.run fresh store'.memo = ⟨strokes, memo, result⟩ ∧
      Fills limits store' { store' with memo }

/-- In all stores that agree with `store` the layout does the same. -/
def Steady (limits : Thresholds) (store : Store) (x : Layout α) : Prop :=
  ∀ fresh, ∃ strokes result, x.Plans limits store fresh strokes result

theorem plans_pure (a : α) : (pure a : Layout α).Plans limits store fresh [] (.ok a) :=
  fun store' _ => ⟨store'.memo, rfl, .refl⟩

theorem plans_fail (fault : Fault) :
    (fail fault : Layout α).Plans limits store fresh [] (.error fault) :=
  fun store' _ => ⟨store'.memo, rfl, .refl⟩

theorem plans_onFreshLine : onFreshLine.Plans limits store fresh [] (.ok fresh) :=
  fun store' _ => ⟨store'.memo, rfl, .refl⟩

theorem plans_text (s : String) : (text s).Plans limits store fresh [.text s] (.ok ()) :=
  fun store' _ => ⟨store'.memo, rfl, .refl⟩

theorem plans_newline (level : Nat) :
    (newline level).Plans limits store fresh [.newline level] (.ok ()) :=
  fun store' _ => ⟨store'.memo, run_newline level fresh store'.memo, .refl⟩

/-- The second layout starts where the strokes of the first have led. -/
theorem Plans.bind {x : Layout α} {f : α → Layout β} {strokes strokes' : List Stroke} {a : α}
    {result : Except Fault β} (hx : x.Plans limits store fresh strokes (.ok a))
    (hf : (f a).Plans limits store (Stroke.freshAfterAll fresh strokes) strokes' result) :
    (x >>= f).Plans limits store fresh (strokes ++ strokes') result := by
  intro store' hagrees
  obtain ⟨memo, hrun, hfills⟩ := hx store' hagrees
  obtain ⟨memo', hrun', hfills'⟩ := hf _ (hagrees.trans (.of_fills hfills))
  refine ⟨memo', ?_, hfills.trans hfills'⟩
  rw [run_bind, hrun]
  simp [hrun']

/-- What asks for no stroke can come first. -/
theorem Plans.after {x : Layout α} {f : α → Layout β} {strokes : List Stroke} {a : α}
    {result : Except Fault β} (hf : (f a).Plans limits store fresh strokes result)
    (hx : x.Plans limits store fresh [] (.ok a)) :
    (x >>= f).Plans limits store fresh strokes result :=
  hx.bind hf

theorem Plans.when {x : Layout Unit} {strokes : List Stroke}
    (hx : x.Plans limits store fresh strokes (.ok ())) (condition : Bool) :
    (when condition x).Plans limits store fresh (if condition then strokes else []) (.ok ()) := by
  cases condition
  · exact plans_pure ()
  · exact hx

/-- After a fault there are no more strokes. -/
theorem Plans.bind_error {x : Layout α} {f : α → Layout β} {strokes : List Stroke} {fault : Fault}
    (hx : x.Plans limits store fresh strokes (.error fault)) :
    (x >>= f).Plans limits store fresh strokes (.error fault) := by
  intro store' hagrees
  obtain ⟨memo, hrun, hfills⟩ := hx store' hagrees
  exact ⟨memo, by rw [run_bind, hrun], hfills⟩

/-- A token is asked for its decision. -/
theorem plans_reading {t : Token} (hs : t.StandsIn store) :
    (reading (t.readMultiline limits)).Plans limits store fresh []
      ((t.multilineIn? limits store.memo).elim (.error .unmeasurable) .ok) := by
  intro store' hagrees
  have hreads := Token.leads_readMultiline limits t (hs.of_entries_eq hagrees.entries)
  obtain ⟨memo, hrun, hfills, -⟩ := hreads
  refine ⟨memo, ?_, hfills⟩
  rw [hagrees.found t hs] at hrun
  simp only [reading, hrun]
  cases t.multilineIn? limits store.memo <;> rfl

/-! ## Steady layouts -/

theorem steady_pure (a : α) : (pure a : Layout α).Steady limits store :=
  fun _ => ⟨_, _, plans_pure a⟩

theorem steady_fail (fault : Fault) : (fail fault : Layout α).Steady limits store :=
  fun _ => ⟨_, _, plans_fail fault⟩

theorem steady_onFreshLine : onFreshLine.Steady limits store :=
  fun _ => ⟨_, _, plans_onFreshLine⟩

theorem steady_text (s : String) : (text s).Steady limits store :=
  fun _ => ⟨_, _, plans_text s⟩

theorem steady_newline (level : Int) : (newline level).Steady limits store := by
  intro fresh
  by_cases hl : level < 0
  · exact ⟨_, _, by rw [newline, if_pos hl]; exact plans_fail _⟩
  · obtain ⟨n, rfl⟩ := Int.eq_ofNat_of_zero_le (Int.not_lt.1 hl)
    exact ⟨_, _, plans_newline n⟩

/-- A decision that is read now is the one that would be read in a store that agrees. -/
theorem steady_reading {t : Token} (hs : t.StandsIn store) :
    (reading (t.readMultiline limits)).Steady limits store :=
  fun _ => ⟨_, _, plans_reading hs⟩

/-- Layouts that do the same in stores that agree do so one after the other. -/
theorem Steady.bind {x : Layout α} {f : α → Layout β} (hx : x.Steady limits store)
    (hf : ∀ a, (f a).Steady limits store) : (x >>= f).Steady limits store := by
  intro fresh
  obtain ⟨strokes, result, hplan⟩ := hx fresh
  cases result with
  | error fault => exact ⟨_, _, hplan.bind_error⟩
  | ok a =>
    obtain ⟨strokes', result', hplan'⟩ := hf a (Stroke.freshAfterAll fresh strokes)
    exact ⟨_, _, hplan.bind hplan'⟩

theorem Steady.when {x : Layout Unit} (hx : x.Steady limits store) (condition : Bool) :
    (when condition x).Steady limits store := by
  cases condition
  · exact steady_pure ()
  · exact hx

end Layout

namespace Token

open Layout

variable {limits : Thresholds} {store : Store}

mutual

/-- A token is written the same way in all stores that agree. -/
theorem steady_write : ∀ (t : Token) (level : Int), t.StandsIn store →
    (t.write limits level).Steady limits store
  | leaf _ _ text, _, _ => by
    rw [write]
    exact steady_text text
  | group tag commas forced parts, level, hs => by
    rw [write]
    exact (steady_reading hs).bind fun broken =>
      steady_writeParts commas broken true parts level hs.part
  | bracket _ frame body, level, hs => by
    rw [write]
    split
    · exact (steady_newline _).bind fun _ => (steady_text _).bind fun _ =>
        (steady_reading hs.body).bind fun broken => (steady_newline _).bind fun _ =>
        (steady_write body _ hs.body).bind fun _ => ((steady_newline _).when _).bind fun _ =>
        steady_text _
    · exact steady_onFreshLine.bind fun fresh => (steady_reading hs.body).bind fun broken =>
        ((steady_newline _).when _).bind fun _ => ((steady_text _).when _).bind fun _ =>
        (steady_write body _ hs.body).bind fun _ => ((steady_newline _).when _).bind fun _ =>
        (steady_text _).when _
  | blank _, _, _ => by
    rw [write]
    exact steady_fail _
  | foreign .., _, _ => by
    rw [write]
    exact steady_fail _

theorem steady_writeParts (commas broken : Bool) : ∀ (first : Bool) (parts : List Token)
    (level : Int), (∀ part ∈ parts, part.StandsIn store) →
    (writeParts limits commas broken first parts level).Steady limits store
  | _, [], _, _ => by
    rw [writeParts]
    exact steady_pure ()
  | first, part :: parts, level, hs => by
    rw [writeParts]
    exact ((steady_text _).when _).bind fun _ => ((steady_newline _).when _).bind fun _ =>
      (steady_write part _ (hs part (by simp))).bind fun _ =>
      steady_writeParts commas broken false parts level fun p hp => hs p (by simp [hp])

end

/-- Writing a token fills cells, and does nothing else to a store. -/
theorem fills_write {t : Token} (hs : t.StandsIn store) (level : Int) (fresh : Bool) :
    Fills limits store
      { store with memo := ((t.write limits level).run fresh store.memo).memo } := by
  obtain ⟨strokes, result, hplan⟩ := steady_write t level hs fresh
  obtain ⟨memo, hrun, hfills⟩ := hplan store (.refl store)
  rwa [hrun]

end Token

/-- What is rendered is the page that the strokes of the token give. -/
theorem Token.result_render (t : Token) (settings : Settings) (memo : Memo) :
    (t.render settings memo).1 =
      ((t.write settings.toThresholds 0).run false memo).result.map fun _ =>
        .ofText t.kind settings.newline (settings.page.applyAll
          ((t.write settings.toThresholds 0).run false memo).strokes).build :=
  rfl

/-- A token of a store is rendered as its tree. -/
theorem Build.result_render (settings : Settings) {store : Store} {id : TokenId} {t : Token}
    (ht : store.tree? id = some t) :
    ((render settings (.token id)).run store).1 = (t.render settings store.memo).1 := by
  rw [render, Attempt.run_bind, run_tree ht]

end TokenLayout
