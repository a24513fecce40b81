import TokenLayout.Proofs.FlatText
import TokenLayout.Proofs.Planning

/-!
# Decisions are taken once

A tree is decided if every group of it has its decision in its cell. Measuring decides a tree, and
so does writing it to the end (`Token.leads_write`): a reading of the root may leave cells empty,
since it stops at the first part that takes several lines, but every group that is written is asked
for its own decision.

From then on nothing is left to decide. A decided tree is written without a look at the thresholds
and without a change to the memo (`Token.Decided.same_write`), so renderings leave the store as it
is and depend on the settings only through width and terminator (`Store.inert_of_decided`).
-/

namespace TokenLayout

/-! ## Decided trees -/

namespace Token

theorem node_of_kind {t : Token} (h : t.kind = .group) :
    ∃ commas forced parts, t.node = .group commas forced parts := by
  cases t with
  | leaf _ role _ => cases role <;> simp [kind, LeafRole.kind] at h
  | group _ commas forced parts => exact ⟨commas, forced, _, rfl⟩
  | bracket => simp [kind] at h
  | blank => simp [kind] at h
  | foreign => simp [kind] at h

/-- Every group of the tree has its decision in its cell. -/
def Decided (memo : Memo) (token : Token) : Prop :=
  token.Every fun t => t.kind = .group → (memo.get t.tag.id).multiline.isSome = true

variable {memo : Memo}

theorem Decided.part {tag : Tag} {commas : Bool} {forced : Option Bool} {parts : List Token}
    (h : (group tag commas forced parts).Decided memo) : ∀ part ∈ parts, part.Decided memo :=
  fun _ hp => Every.part h hp

theorem Decided.body {tag : Tag} {frame : Frame} {body : Token}
    (h : (bracket tag frame body).Decided memo) : body.Decided memo :=
  Every.body h

/-- What is decided stays so. -/
theorem Decided.mono {store store' : Store} {t : Token} (h : t.Decided store.memo)
    (hk : store.Keeps store') : t.Decided store'.memo := by
  intro u hu hkind
  obtain ⟨b, hb⟩ := Option.isSome_iff_exists.1 (h u hu hkind)
  rw [hk.multiline _ b hb, Option.isSome_some]

/-- A decided token is asked for its decision without a change to the memo, and the answer does not
depend on the thresholds. -/
theorem Decided.exists_readMultiline : ∀ {t : Token}, t.Decided memo →
    ∃ value, ∀ limits, (t.readMultiline limits).run memo = (value, memo)
  | leaf .., _ => ⟨some false, fun _ => rfl⟩
  | group tag _ forced _, h => by
    obtain ⟨b, hb⟩ := Option.isSome_iff_exists.1 (Every.root h rfl)
    have hcell : (memo.get tag.id).multiline = some b := hb
    refine ⟨some b, fun limits => ?_⟩
    cases forced <;> simp [readMultiline, Reading.keepMultiline, hcell]
  | bracket _ frame body, h => by
    obtain ⟨value, hbody⟩ := exists_readMultiline h.body
    refine ⟨value.map (· || frame.ownLine), fun limits => ?_⟩
    rw [readMultiline, Reading.run_bind, hbody]
    cases value <;> rfl
  | blank _, _ => ⟨none, fun _ => rfl⟩
  | foreign _ _ multiline, _ => ⟨some multiline, fun _ => rfl⟩

end Token

/-! ## Layouts that do the same -/

namespace Layout

variable {α β : Type} {memo : Memo}

/-- The layout leaves the memo as it is. -/
def Idle (x : Layout α) : Prop :=
  ∀ fresh memo, (x.run fresh memo).memo = memo

theorem idle_pure (a : α) : (pure a : Layout α).Idle :=
  fun _ _ => rfl

theorem idle_fail (fault : Fault) : (fail fault : Layout α).Idle :=
  fun _ _ => rfl

theorem idle_text (s : String) : (text s).Idle :=
  fun _ _ => rfl

theorem idle_onFreshLine : onFreshLine.Idle :=
  fun _ _ => rfl

theorem idle_newline (level : Int) : (newline level).Idle := by
  unfold newline
  split <;> exact fun _ _ => rfl

theorem Idle.when {x : Layout Unit} (h : x.Idle) (condition : Bool) :
    (Layout.when condition x).Idle := by
  cases condition
  · exact idle_pure ()
  · exact h

/-- With the cells as they are in `memo` the layouts do the same, and leave them so. -/
def Same (memo : Memo) (x y : Layout α) : Prop :=
  ∀ fresh, ∃ strokes result,
    x.run fresh memo = ⟨strokes, memo, result⟩ ∧ y.run fresh memo = ⟨strokes, memo, result⟩

/-- A layout that reads no cell does the same whatever is in them. -/
theorem Idle.same {x : Layout α} (h : x.Idle) : Same memo x x := by
  intro fresh
  have hmemo := h fresh memo
  rcases hrun : x.run fresh memo with ⟨strokes, memo', result⟩
  rw [hrun] at hmemo
  cases hmemo
  exact ⟨strokes, result, rfl, rfl⟩

theorem Same.bind {x y : Layout α} {f g : α → Layout β} (hx : Same memo x y)
    (hf : ∀ a, Same memo (f a) (g a)) : Same memo (x >>= f) (y >>= g) := by
  intro fresh
  obtain ⟨strokes, result, hxrun, hyrun⟩ := hx fresh
  rw [run_bind, run_bind, hxrun, hyrun]
  cases result with
  | error fault => exact ⟨_, _, rfl, rfl⟩
  | ok a =>
    obtain ⟨strokes', result', hfrun, hgrun⟩ := hf a (Stroke.freshAfterAll fresh strokes)
    exact ⟨strokes ++ strokes', result', by simp [hfrun], by simp [hgrun]⟩

/-- A decision that is in its cell is read under any thresholds. -/
theorem same_reading {t : Token} (h : t.Decided memo) (limits limits' : Thresholds) :
    Same memo (reading (t.readMultiline limits)) (reading (t.readMultiline limits')) := by
  obtain ⟨value, hread⟩ := h.exists_readMultiline
  intro fresh
  simp only [reading, hread]
  cases value <;> exact ⟨_, _, rfl, rfl⟩

end Layout

namespace Token

open Layout

variable {memo : Memo}

mutual

/-- A decided token is written the same way under all thresholds, and leaves the memo as it is. -/
theorem Decided.same_write (limits limits' : Thresholds) : ∀ (t : Token) (level : Int),
    t.Decided memo → Same memo (t.write limits level) (t.write limits' level)
  | leaf _ _ text, _, _ => by
    rw [write, write]
    exact (idle_text text).same
  | group tag commas forced parts, level, h => by
    rw [write, write]
    exact (same_reading h limits limits').bind fun broken =>
      Decided.same_writeParts limits limits' commas broken true parts level h.part
  | bracket _ frame body, level, h => by
    rw [write, write]
    split
    · exact (idle_newline _).same.bind fun _ => (idle_text _).same.bind fun _ =>
        (same_reading h.body limits limits').bind fun _ => (idle_newline _).same.bind fun _ =>
        (Decided.same_write limits limits' body _ h.body).bind fun _ =>
        ((idle_newline _).when _).same.bind fun _ => (idle_text _).same
    · exact idle_onFreshLine.same.bind fun _ => (same_reading h.body limits limits').bind fun _ =>
        ((idle_newline _).when _).same.bind fun _ => ((idle_text _).when _).same.bind fun _ =>
        (Decided.same_write limits limits' body _ h.body).bind fun _ =>
        ((idle_newline _).when _).same.bind fun _ => ((idle_text _).when _).same
  | blank _, _, _ => by
    rw [write, write]
    exact (idle_fail _).same
  | foreign .., _, _ => by
    rw [write, write]
    exact (idle_fail _).same

theorem Decided.same_writeParts (limits limits' : Thresholds) (commas broken : Bool) :
    ∀ (first : Bool) (parts : List Token) (level : Int), (∀ part ∈ parts, part.Decided memo) →
      Same memo (writeParts limits commas broken first parts level)
        (writeParts limits' commas broken first parts level)
  | _, [], _, _ => by
    rw [writeParts, writeParts]
    exact (idle_pure ()).same
  | first, part :: parts, level, h => by
    rw [writeParts, writeParts]
    exact ((idle_text _).when _).same.bind fun _ => ((idle_newline _).when _).same.bind fun _ =>
      (Decided.same_write limits limits' part _ (h part (by simp))).bind fun _ =>
      Decided.same_writeParts limits limits' commas broken false parts level
        fun p hp => h p (by simp [hp])

end

end Token

/-! ## Writing decides -/

namespace Layout

variable {α β : Type} {limits : Thresholds} {store : Store} {fresh : Bool}

/-- From `store` the layout fills cells, and if it comes to an end `post` holds of the store that it
leaves. -/
def Leads (limits : Thresholds) (store : Store) (fresh : Bool) (x : Layout α)
    (post : Store → Prop) : Prop :=
  Fills limits store { store with memo := (x.run fresh store.memo).memo } ∧
    ∀ a, (x.run fresh store.memo).result = .ok a →
      post { store with memo := (x.run fresh store.memo).memo }

variable {post post' : Store → Prop}

theorem leads_fail (fault : Fault) : (fail fault : Layout α).Leads limits store fresh post :=
  ⟨.refl, fun _ ha => nomatch ha⟩

theorem Leads.bind {x : Layout α} {f : α → Layout β} (hx : x.Leads limits store fresh post)
    (hf : ∀ a store' fresh', Fills limits store store' → post store' →
      (f a).Leads limits store' fresh' post') : (x >>= f).Leads limits store fresh post' := by
  obtain ⟨hfills, hpost⟩ := hx
  rw [Leads, run_bind]
  rcases hrun : x.run fresh store.memo with ⟨strokes, memo, fault | a⟩ <;> rw [hrun] at hfills hpost
  · exact ⟨hfills, fun _ ha => nomatch ha⟩
  · obtain ⟨hfills', hpost'⟩ := hf a _ (Stroke.freshAfterAll fresh strokes) hfills (hpost a rfl)
    exact ⟨hfills.trans hfills', hpost'⟩

theorem Idle.leads {x : Layout α} (hx : x.Idle) (h : post store) :
    x.Leads limits store fresh post := by
  rw [Leads, hx fresh store.memo]
  exact ⟨.refl, fun _ _ => h⟩

/-- What leaves the memo as it is can come first. -/
theorem Idle.bind {x : Layout α} {f : α → Layout β} (hx : x.Idle)
    (hf : ∀ a fresh', (f a).Leads limits store fresh' post) :
    (x >>= f).Leads limits store fresh post := by
  have hmemo := hx fresh store.memo
  rw [Leads, run_bind]
  rcases hrun : x.run fresh store.memo with ⟨strokes, memo, fault | a⟩ <;> rw [hrun] at hmemo <;>
    cases hmemo
  · exact ⟨.refl, fun _ ha => nomatch ha⟩
  · exact hf a (Stroke.freshAfterAll fresh strokes)

theorem Leads.imp {x : Layout α} (hx : x.Leads limits store fresh post)
    (h : ∀ store', Fills limits store store' → post store' → post' store') :
    x.Leads limits store fresh post' :=
  ⟨hx.1, fun a ha => h _ hx.1 (hx.2 a ha)⟩

/-- A decision that is read is known from then on. -/
theorem leads_reading {t : Token} (hs : t.StandsIn store) :
    (reading (t.readMultiline limits)).Leads limits store fresh
      fun s => ∃ b, s.KnownMultiline t.tag.id b := by
  obtain ⟨memo, hrun, hfills, hpost⟩ := t.leads_readMultiline limits hs
  simp only [Leads, reading, hrun]
  cases hvalue : t.multilineIn? limits store.memo with
  | none => exact ⟨hfills, by simp⟩
  | some b => exact ⟨hfills, fun _ _ => ⟨b, hpost b hvalue⟩⟩

end Layout

namespace Token

open Layout

/-- The tree can be written, and there is nothing left to decide. -/
def Written (store : Store) (token : Token) : Prop :=
  token.Writable ∧ token.Decided store.memo

variable {store store' : Store}

theorem Written.mono {t : Token} (h : t.Written store) (hk : store.Keeps store') :
    t.Written store' :=
  ⟨h.1, h.2.mono hk⟩

theorem written_leaf (tag : Tag) (role : LeafRole) (text : String) :
    (leaf tag role text).Written store := by
  constructor <;> refine every_iff.2 ⟨?_, by simp [children]⟩ <;> cases role <;>
    simp [kind, LeafRole.kind, Kind.writable]

/-- A group is written once its own decision is known and its parts are written. -/
theorem written_group {tag : Tag} {commas : Bool} {forced : Option Bool} {parts : List Token}
    {b : Bool} (hs : (group tag commas forced parts).StandsIn store)
    (hb : store.KnownMultiline tag.id b) (h : ∀ part ∈ parts, part.Written store) :
    (group tag commas forced parts).Written store := by
  have hcell : (store.memo.get tag.id).multiline = some b := hb.cell hs.find?
  constructor
  · exact every_iff.2 ⟨rfl, fun p hp => (h p hp).1⟩
  · exact every_iff.2 ⟨fun _ => Option.isSome_iff_exists.2 ⟨b, hcell⟩, fun p hp => (h p hp).2⟩

theorem written_bracket {tag : Tag} {frame : Frame} {body : Token} (h : body.Written store) :
    (bracket tag frame body).Written store :=
  ⟨every_iff.2 ⟨rfl, List.forall_mem_singleton.2 h.1⟩,
    every_iff.2 ⟨nofun, List.forall_mem_singleton.2 h.2⟩⟩

mutual

/-- A token that is written to the end is decided then. Every group is asked for its decision before
its parts are written, and keeps it. -/
theorem leads_write (limits : Thresholds) : ∀ (t : Token) (level : Int) {store : Store}
    (fresh : Bool), t.StandsIn store →
    (t.write limits level).Leads limits store fresh fun s => t.Written s
  | leaf tag role text, _, _, _, _ => by
    rw [write]
    exact (idle_text text).leads (written_leaf tag role text)
  | group tag commas forced parts, level, _, _, hs => by
    rw [write]
    refine (leads_reading hs).bind fun broken store' _ hfills ⟨b, hb⟩ => ?_
    have hs' := hfills.standsIn hs
    -- What is known of the group itself is still known after its parts.
    refine (leads_writeParts limits commas broken true parts level _ hs'.part).imp
      fun store'' hfills' hparts => ?_
    exact written_group (hfills'.standsIn hs') (hb.mono hfills'.keeps) hparts
  | bracket _ frame body, level, _, _, hs => by
    rw [write]
    split
    · exact (idle_newline _).bind fun _ _ => (idle_text _).bind fun _ _ =>
        (leads_reading hs.body).bind fun _ _ _ hfills _ => (idle_newline _).bind fun _ _ =>
        (leads_write limits body _ _ (hfills.standsIn hs.body)).bind fun _ _ _ _ h =>
        ((idle_newline _).when _).bind fun _ _ => (idle_text _).leads (written_bracket h)
    · exact idle_onFreshLine.bind fun _ _ => (leads_reading hs.body).bind fun _ _ _ hfills _ =>
        ((idle_newline _).when _).bind fun _ _ => ((idle_text _).when _).bind fun _ _ =>
        (leads_write limits body _ _ (hfills.standsIn hs.body)).bind fun _ _ _ _ h =>
        ((idle_newline _).when _).bind fun _ _ => ((idle_text _).when _).leads (written_bracket h)
  | blank _, _, _, _, _ => by
    rw [write]
    exact leads_fail _
  | foreign .., _, _, _, _ => by
    rw [write]
    exact leads_fail _

theorem leads_writeParts (limits : Thresholds) (commas broken : Bool) : ∀ (first : Bool)
    (parts : List Token) (level : Int) {store : Store} (fresh : Bool),
    (∀ part ∈ parts, part.StandsIn store) →
    (writeParts limits commas broken first parts level).Leads limits store fresh
      fun s => ∀ part ∈ parts, part.Written s
  | _, [], _, _, _, _ => by
    rw [writeParts]
    exact (idle_pure ()).leads (by simp)
  | first, part :: parts, level, _, _, hs => by
    rw [writeParts]
    refine ((idle_text _).when _).bind fun _ _ => ((idle_newline _).when _).bind fun _ _ =>
      (leads_write limits part _ _ (hs part (by simp))).bind fun _ _ _ hfills hpart =>
      (leads_writeParts limits commas broken false parts level _
        fun p hp => hfills.standsIn (hs p (by simp [hp]))).imp fun _ hfills' hparts => ?_
    exact List.forall_mem_cons.2 ⟨hpart.mono hfills'.keeps, hparts⟩

end

end Token

/-! ## What is left to change -/

/-- A decided tree is rendered as under the default thresholds, and leaves the memo as it is. -/
theorem Token.Decided.render_eq {memo : Memo} {t : Token} (h : t.Decided memo)
    (settings : Settings) :
    t.render settings memo = ((t.render { settings with toThresholds := {} } memo).1, memo) := by
  obtain ⟨strokes, result, hrun, hrun'⟩ := h.same_write settings.toThresholds {} t 0 false
  have hfresh : ∀ settings : Settings, settings.page.fresh = false := fun _ => rfl
  simp only [render, Page.write, hfresh, hrun, hrun']
  rfl

/-- Renderings of a token, one after the other, whatever becomes of each. -/
def Build.renderAll (id : TokenId) : List Settings → Build (List (Except Fault Rendering))
  | [] => pure []
  | settings :: history => do
    let result ← Attempt.outcome (render settings (.token id))
    let results ← renderAll id history
    return result :: results

theorem Build.run_render (settings : Settings) {store : Store} {id : TokenId} {t : Token}
    (ht : store.tree? id = some t) :
    (render settings (.token id)).run store =
      ((t.render settings store.memo).1,
        { store with memo := (t.render settings store.memo).2 }) := by
  rw [render, Attempt.run_bind, run_tree ht]

namespace Store

/-- Empty cells may have been filled. The tokens and the filled cells are as they were. -/
structure OnlyFills (store store' : Store) : Prop where
  entries : store'.entries = store.entries
  length : ∀ id n, (store.memo.get id).length = some n → (store'.memo.get id).length = some n
  multiline : ∀ id b,
    (store.memo.get id).multiline = some b → (store'.memo.get id).multiline = some b

/-- Rendering and writing a token change nothing at all, and what comes of them does not depend on
the thresholds. -/
structure Inert (store : Store) (id : TokenId) : Prop where
  render : ∃ result : Nat → String → Except Fault Rendering, ∀ history : List Settings,
    (Build.renderAll id history).run store =
      (.ok (history.map fun settings => result settings.indentWidth settings.newline), store)
  write : ∃ result : Int → Page → Except Fault Unit × Page, ∀ limits level page,
    store.write limits id level page = ((result level page).1, (result level page).2, store)

variable {store store' : Store} {id : TokenId} {t : Token}

/-- Filling cells is all that is done. -/
theorem OnlyFills.of_fills {limits : Thresholds} (h : Fills limits store store') :
    store.OnlyFills store' :=
  ⟨h.entries_eq, h.keeps.length, h.keeps.multiline⟩

/-- Nothing is left to change under a decided tree. -/
theorem inert_of_decided (ht : store.tree? id = some t) (h : t.Decided store.memo) :
    store.Inert id where
  render := by
    refine ⟨fun width newline =>
      (t.render { indentWidth := width, newline := newline } store.memo).1, fun history => ?_⟩
    induction history with
    | nil => rfl
    | cons settings history ih =>
      rw [Build.renderAll, Attempt.run_bind, Attempt.run_outcome, Build.run_render settings ht,
        h.render_eq settings]
      simp only [Attempt.run_bind, ih, Attempt.run_pure, List.map_cons]
  write := by
    refine ⟨fun level page =>
      ((store.write {} id level page).1, (store.write {} id level page).2.1),
      fun limits level page => ?_⟩
    obtain ⟨strokes, result, hrun, hrun'⟩ := h.same_write limits {} t level page.fresh
    simp only [write, ht, Page.write, hrun, hrun']

/-- Measuring some tokens to the end fills the cells of every group among them. -/
theorem cells_readAll {limits : Thresholds} {ts : List Token} (hs : ∀ u ∈ ts, u.StandsIn store)
    {memo : Memo} (hok : (Token.readAll limits ts).run store.memo = (some (), memo)) :
    ∀ u ∈ ts, u.kind = .group →
      (memo.get u.tag.id).length.isSome = true ∧ (memo.get u.tag.id).multiline.isSome = true := by
  obtain ⟨memo', hrun, hfills, hpost⟩ := Token.leads_readAll limits ts hs
  obtain ⟨hvalue, rfl⟩ := Prod.mk.inj (hrun.symm.trans hok)
  intro u hu hkind
  obtain ⟨⟨n, hn⟩, b, hb⟩ := hpost () hvalue u hu
  obtain ⟨commas, forced, parts, hnode⟩ := Token.node_of_kind hkind
  have hentry := (hfills.standsIn (hs u hu)).find?
  rw [hnode] at hentry
  exact ⟨Option.isSome_iff_exists.2 ⟨n, hn.cell hentry⟩,
    Option.isSome_iff_exists.2 ⟨b, hb.cell hentry⟩⟩

/-- Measuring a tree to the end fills the cells of every group of it. -/
theorem cells_measure {limits : Thresholds} (ht : store.tree? id = some t)
    (hok : ((Build.measure limits (.token id)).run store).1 = .ok ()) :
    let after := ((Build.measure limits (.token id)).run store).2
    after.entries = store.entries ∧ ∀ u ∈ t.preorder, u.kind = .group →
      (after.memo.get u.tag.id).length.isSome = true ∧
        (after.memo.get u.tag.id).multiline.isSome = true := by
  have hs : ∀ u ∈ t.walk.reverse, u.StandsIn store := fun u hu =>
    Token.Every.below (standsIn_of_tree? ht).2 (by simpa [Token.walk_eq_preorder] using hu)
  have hmeasure : (Build.measure limits (.token id)).run store =
      (Build.reading (t.measure limits)).run store := by
    rw [Build.measure, Attempt.run_bind, Build.run_tree ht]
  rw [hmeasure] at hok ⊢
  rw [Build.reading, Token.measure] at hok ⊢
  dsimp only at hok ⊢
  rcases hrun : (Token.readAll limits t.walk.reverse).run store.memo with ⟨_ | _, memo⟩
  · simp [hrun] at hok
  · exact ⟨rfl, fun u hu => cells_readAll hs hrun u (by simpa [Token.walk_eq_preorder] using hu)⟩

/-- A rendering fills cells, and decides the tree if it comes to an end. -/
theorem fills_render (settings : Settings) (ht : store.tree? id = some t) :
    let after := ((Build.render settings (.token id)).run store).2
    Fills settings.toThresholds store after ∧
      ∀ rendering, ((Build.render settings (.token id)).run store).1 = .ok rendering →
        t.Written after := by
  obtain ⟨hfills, hwritten⟩ :=
    t.leads_write settings.toThresholds 0 false (standsIn_of_tree? ht).2
  rw [Build.run_render settings ht]
  refine ⟨hfills, fun rendering hok => ?_⟩
  rw [Token.result_render] at hok
  cases hresult : ((t.write settings.toThresholds 0).run false store.memo).result with
  | error fault => simp [hresult, Except.map] at hok
  | ok => exact hwritten () hresult

/-- Writing fills cells, and decides the tree if it comes to an end. -/
theorem fills_write (limits : Thresholds) (ht : store.tree? id = some t) (level : Int)
    (page : Page) :
    let after := (store.write limits id level page).2.2
    Fills limits store after ∧
      ((store.write limits id level page).1 = .ok () → t.Written after) := by
  obtain ⟨hfills, hwritten⟩ := t.leads_write limits level page.fresh (standsIn_of_tree? ht).2
  simp only [write, ht]
  exact ⟨hfills, hwritten ()⟩

end Store

/-- Rendering and writing fill empty cells and change nothing else. Once a tree is measured, or is
rendered or written to the end, there is nothing left for them to change, and their results depend
on the settings only through the width and the terminator. -/
theorem Store.inert_once_measured_or_written {store : Store} {id : TokenId} {t : Token}
    (ht : store.tree? id = some t) :
    (∀ limits, ((Build.measure limits (.token id)).run store).1 = .ok () →
      let after := ((Build.measure limits (.token id)).run store).2
      (∀ u ∈ t.walk, u.kind = .group → (after.memo.get u.tag.id).length.isSome = true ∧
        (after.memo.get u.tag.id).multiline.isSome = true) ∧ after.Inert id) ∧
    (∀ settings,
      let after := ((Build.render settings (.token id)).run store).2
      store.OnlyFills after ∧
        ∀ rendering, ((Build.render settings (.token id)).run store).1 = .ok rendering →
          (∀ u ∈ t.walk, u.kind = .group → (after.memo.get u.tag.id).multiline.isSome = true) ∧
            after.Inert id) ∧
    ∀ limits level page,
      let after := (store.write limits id level page).2.2
      store.OnlyFills after ∧ ((store.write limits id level page).1 = .ok () →
        (∀ u ∈ t.walk, u.kind = .group → (after.memo.get u.tag.id).multiline.isSome = true) ∧
          after.Inert id) := by
  rw [Token.walk_eq_preorder]
  have hinert : ∀ {after : Store}, after.entries = store.entries → t.Decided after.memo →
      after.Inert id := fun hentries h => inert_of_decided ((tree?_congr hentries id).trans ht) h
  refine ⟨fun limits hok => ?_, fun settings => ?_, fun limits level page => ?_⟩
  · obtain ⟨hentries, hcells⟩ := cells_measure ht hok
    exact ⟨hcells, hinert hentries fun u hu hkind => (hcells u hu hkind).2⟩
  · obtain ⟨hfills, hwritten⟩ := fills_render settings ht
    refine ⟨.of_fills hfills, fun rendering hok => ?_⟩
    have hdecided := (hwritten rendering hok).2
    exact ⟨hdecided, hinert hfills.entries_eq hdecided⟩
  · obtain ⟨hfills, hwritten⟩ := fills_write limits ht level page
    refine ⟨.of_fills hfills, fun hok => ?_⟩
    have hdecided := (hwritten hok).2
    exact ⟨hdecided, hinert hfills.entries_eq hdecided⟩

/-- A group stands beside a bracket round it. Thresholds matter to its first rendering, and to
whether it can be written at a level below zero. -/
theorem Store.inert_once_measured_or_written_shared :
    let store : Store := { entries := #[⟨{ breakable := true }, .leaf .word "ab"⟩,
      ⟨{}, .group true none [0, 0]⟩, ⟨{}, .bracket { opening := "(", closing := ")" } 1⟩,
      ⟨{}, .group false none [1, 2]⟩] }
    let narrow : Settings := { maxLength := 1 }
    ((Build.render {} (.token 3)).run store).1 ≠ ((Build.render narrow (.token 3)).run store).1 ∧
      ((Build.measure {} (.token 3)).run store).2.Inert 3 ∧
      ((Build.render narrow (.token 3)).run store).2.Inert 3 ∧
      (store.write narrow.toThresholds 3 (-1) {}).1 = .error (.negativeLevel (-1)) ∧
      store.OnlyFills (store.write narrow.toThresholds 3 (-1) {}).2.2 ∧
      (store.write {} 3 (-1) {}).2.2.Inert 3 := by
  intro store narrow
  obtain ⟨t, ht⟩ : ∃ t, store.tree? 3 = some t := ⟨_, rfl⟩
  obtain ⟨hmeasure, hrender, hwrite⟩ := inert_once_measured_or_written ht
  have hok : ((Build.render narrow (.token 3)).run store).1 = .ok (.ofText .group narrow.newline
      "\r\nab, \r\nab(\r\n   ab, \r\n   ab\r\n   )") := by decide +kernel
  exact ⟨by decide +kernel, (hmeasure {} (by decide +kernel)).2, ((hrender narrow).2 _ hok).2,
    by decide +kernel, (hwrite narrow.toThresholds (-1) {}).1,
    ((hwrite {} (-1) {}).2 (by decide +kernel)).2⟩

end TokenLayout
