import TokenLayout.Proofs.Decided
import TokenLayout.Proofs.Faithful
import TokenLayout.Proofs.Runs
import TokenLayout.Proofs.Spelling

/-!
# Trees on one line

If a tree does not take several lines, and no group of it was forced to one, then no token of it
takes several: a group that decided for one line asked all of its parts, and they answered the same
(`Store.Sound.oneLine`). The decisions are in the cells, so they stand whatever the settings become.

Such a tree is written without a break. Nothing in it asks for one, and a page that is not on a
fresh line is not on one between its texts either (`Token.inline_write`). So the level does not
matter, not even a negative one, and the text is the flat one. `Session.Runs.writes_flat` puts this
together.
-/

namespace TokenLayout

/-! ## No token takes several lines -/

/-- The decision that a group is forced to. -/
def Token.forced? : Token → Option Bool
  | group _ _ forced _ => forced
  | _ => none

/-- It is known of every token of the tree that it does not take several lines. -/
def Token.OneLine (store : Store) (token : Token) : Prop :=
  token.Every fun t => store.KnownMultiline t.tag.id false

namespace Store

variable {allowed : Thresholds → Prop} {store store' : Store}

theorem KnownAny.forall_false {ids : List TokenId} {b : Bool} (h : store.KnownAny ids b)
    (hb : b = false) : ∀ id ∈ ids, store.KnownMultiline id false := by
  induction h with
  | nil => simp
  | found => simp at hb
  | next hid _ ih => exact List.forall_mem_cons.2 ⟨hid, ih hb⟩

/-- A group that decided for one line did so because all of its parts had. -/
theorem Verdict.forall_false {limits : Thresholds} {id : TokenId} {forced : Option Bool}
    {parts : List TokenId} (h : store.Verdict limits id forced parts false)
    (hforced : forced ≠ some false) : ∀ part ∈ parts, store.KnownMultiline part false := by
  cases forced with
  | some decision =>
    obtain rfl : false = decision := h
    exact absurd rfl hforced
  | none =>
    obtain ⟨n, -, hb⟩ := h
    split at hb
    · simp at hb
    · exact hb.forall_false rfl

/-- The decision of a bracket is known from that of its body. -/
theorem KnownMultiline.body {id : TokenId} {b : Bool} (h : store.KnownMultiline id b)
    {marks : Marks} {frame : Frame} {body : TokenId}
    (hid : store.find? id = some ⟨marks, .bracket frame body⟩) :
    ∃ c, store.KnownMultiline body c ∧ b = (c || frame.ownLine) := by
  cases h with
  | bracket hid' hbody =>
    cases hid.symm.trans hid'
    exact ⟨_, hbody, rfl⟩
  | leaf hid' | group hid' | foreign hid' => cases hid.symm.trans hid'

/-- A bracket takes one line if its body does and it does not start on a line of its own. -/
theorem KnownMultiline.body_false {id : TokenId} {marks : Marks} {frame : Frame} {body : TokenId}
    (h : store.KnownMultiline id false)
    (hid : store.find? id = some ⟨marks, .bracket frame body⟩) :
    store.KnownMultiline body false ∧ frame.ownLine = false := by
  obtain ⟨c, hbody, hc⟩ := h.body hid
  obtain ⟨rfl, hown⟩ := Bool.or_eq_false_iff.1 hc.symm
  exact ⟨hbody, hown⟩

theorem Sound.oneLine (hsound : store.Sound allowed) {t : Token} (hs : t.StandsIn store)
    (hforced : t.Every fun u => u.forced? ≠ some false)
    (h : store.KnownMultiline t.tag.id false) : t.OneLine store := by
  induction t using Token.children_induction with
  | step t ih =>
    refine Token.every_iff.2 ⟨h, fun c hc => ?_⟩
    refine ih c hc ((Token.every_iff.1 hs).2 c hc) ((Token.every_iff.1 hforced).2 c hc) ?_
    cases t with
    | leaf | blank | foreign => simp [Token.children] at hc
    | group tag commas forced parts =>
      obtain ⟨_, _, _, _, hid, limits, -, hverdict⟩ :=
        hsound.multiline _ false (h.cell hs.find?)
      obtain ⟨_, _, heq, rfl⟩ := hs.eq_group rfl hid
      cases heq
      exact hverdict.forall_false hforced.root c.tag.id (List.mem_map_of_mem hc)
    | bracket tag frame body =>
      obtain rfl : c = body := List.mem_singleton.1 hc
      exact (h.body_false hs.find?).1

end Store

namespace Token.OneLine

variable {store store' : Store} {t : Token}

theorem decided (h : t.OneLine store) (hs : t.StandsIn store) : t.Decided store.memo := by
  intro u hu hkind
  obtain ⟨commas, forced, parts, hnode⟩ := node_of_kind hkind
  have hentry := StandsIn.find? (hs.below hu)
  rw [hnode] at hentry
  rw [(h u hu).cell hentry, Option.isSome_some]

/-- A token of the tree is read without a change to the memo, under whatever thresholds. -/
theorem run_readMultiline (h : t.OneLine store) (hs : t.StandsIn store) (limits : Thresholds) :
    (t.readMultiline limits).run store.memo = (some false, store.memo) := by
  obtain ⟨value, hrun⟩ := (h.decided hs).exists_readMultiline
  obtain ⟨memo, hrun', -⟩ := t.leads_readMultiline limits hs
  rw [multilineIn?_of_known limits h.root hs rfl, hrun, Prod.mk.injEq] at hrun'
  rw [hrun, hrun'.1]

/-- Later on there is the same tree with other marks, and it is still known to take one line. -/
theorem later (h : t.OneLine store) (hs : t.StandsIn store) (hk : store.Keeps store') :
    store'.tree? t.tag.id = some (t.mapTag store'.remark) ∧
      (t.mapTag store'.remark).OneLine store' := by
  constructor
  · have hstands : (t.mapTag store'.remark).StandsIn store' := by
      refine Store.standsIn_mapTag_remark fun u hu => hk.node _ _ _ (hs u hu) ?_
      by_cases hkind : u.kind = .group
      · obtain ⟨b, hb⟩ := Option.isSome_iff_exists.1 (h.decided hs u hu hkind)
        exact Or.inl (Store.measured_of_multiline hb)
      · exact Or.inr (by rwa [kind_node])
    have htree := Store.tree?_of_standsIn hstands
    rwa [tag_mapTag, Store.id_remark] at htree
  · rw [OneLine, every_mapTag]
    intro u hu
    rw [tag_mapTag, Store.id_remark]
    exact (h u hu).mono hk

end Token.OneLine

/-! ## Layouts without a break -/

namespace Layout

variable {memo : Memo} {x : Layout Unit} {s s' : String}

/-- From a page that is not on a fresh line the layout asks for texts that make up `s` and for no
break, and it leaves the memo as it is. -/
def Inline (memo : Memo) (x : Layout Unit) (s : String) : Prop :=
  ∃ texts : List String,
    x.run false memo = ⟨texts.map .text, memo, .ok ()⟩ ∧ String.join texts = s

theorem freshAfterAll_texts (texts : List String) :
    Stroke.freshAfterAll false (texts.map .text) = false := by
  induction texts with
  | nil => rfl
  | cons s texts ih => exact ih

theorem inline_pure : (pure () : Layout Unit).Inline memo "" :=
  ⟨[], rfl, rfl⟩

theorem inline_text (s : String) : (text s).Inline memo s :=
  ⟨[s], rfl, by simp⟩

theorem Inline.bind {f : Unit → Layout Unit} (hx : x.Inline memo s)
    (hf : (f ()).Inline memo s') : (x >>= f).Inline memo (s ++ s') := by
  obtain ⟨texts, hrun, rfl⟩ := hx
  obtain ⟨texts', hrun', rfl⟩ := hf
  refine ⟨texts ++ texts', ?_, by simp⟩
  rw [run_bind, hrun]
  simp only [freshAfterAll_texts, hrun', List.map_append]

theorem Inline.when (hx : x.Inline memo s) (condition : Bool) :
    (Layout.when condition x).Inline memo (if condition then s else "") := by
  cases condition
  · exact inline_pure
  · exact hx

theorem Inline.of_eq (hx : x.Inline memo s) (hs : s = s') : x.Inline memo s' :=
  hs ▸ hx

theorem Inline.after_onFreshLine {f : Bool → Layout Unit} (hf : (f false).Inline memo s) :
    (onFreshLine >>= f).Inline memo s :=
  hf

theorem Inline.after_reading {r : Reading Bool} {b : Bool} {f : Bool → Layout Unit}
    (hr : r.run memo = (some b, memo)) (hf : (f b).Inline memo s) :
    (reading r >>= f).Inline memo s := by
  obtain ⟨texts, hrun, rfl⟩ := hf
  refine ⟨texts, ?_, rfl⟩
  simp only [run_bind, reading, hr]
  exact hrun

end Layout

namespace Token

variable {limits : Thresholds} {store : Store}

theorem inline_writeParts {memo : Memo} {parts : List Token}
    (h : ∀ part ∈ parts, ∀ level, (part.write limits level).Inline memo part.flat)
    (commas first : Bool) (level : Int) :
    (writeParts limits commas false first parts level).Inline memo (flats commas first parts) := by
  induction parts generalizing first with
  | nil => exact Layout.inline_pure
  | cons part parts ih =>
    have hlead : (Layout.when (commas && !first) (Layout.text separatorText)).Inline memo _ :=
      (Layout.inline_text separatorText).when _
    have hpart := h part (by simp) (level + part.tag.inset)
    have hparts := ih (fun p hp => h p (by simp [hp])) false
    rw [writeParts, flats]
    exact (hlead.bind (Layout.inline_pure.bind (hpart.bind hparts))).of_eq
      (by simp [String.append_assoc])

/-- On a page that is not on a fresh line a tree on one line is written as its flat text, at
whatever level. -/
theorem inline_write {t : Token} (hw : t.Writable) (hs : t.StandsIn store) (h : t.OneLine store)
    (level : Int) : (t.write limits level).Inline store.memo t.flat := by
  induction t using children_induction generalizing level with
  | step t ih =>
    cases t with
    | leaf tag role text =>
      rw [write, flat]
      exact Layout.inline_text text
    | group tag commas forced parts =>
      have hparts : ∀ part ∈ parts, ∀ level,
          (part.write limits level).Inline store.memo part.flat :=
        fun part hp => ih part hp (hw.part part hp) (hs.part part hp) (Every.part h hp)
      rw [write, flat]
      exact .after_reading (h.run_readMultiline hs limits)
        (inline_writeParts hparts commas true level)
    | bracket tag frame body =>
      obtain ⟨-, hown⟩ := h.root.body_false hs.find?
      have hone : body.OneLine store := Every.body h
      have hbody := ih body (List.mem_singleton_self body) hw.body hs.body hone
        (level + body.tag.inset)
      have hopening : (Layout.when (!frame.bare body) (Layout.text frame.opening)).Inline
          store.memo _ := (Layout.inline_text frame.opening).when _
      have hclosing : (Layout.when (!frame.bare body) (Layout.text frame.closing)).Inline
          store.memo _ := (Layout.inline_text frame.closing).when _
      rw [write, if_neg (by simp [hown]), flat]
      refine .after_onFreshLine (.after_reading (hone.run_readMultiline hs.body limits) ?_)
      refine (Layout.inline_pure.bind (hopening.bind
        (hbody.bind (Layout.inline_pure.bind hclosing)))).of_eq ?_
      cases frame.bare body <;> simp [String.append_assoc]
    | blank tag => exact absurd hw (not_writable_blank tag)
    | foreign tag length multiline => exact absurd hw (not_writable_foreign tag length multiline)

end Token

/-! ## Pages -/

/-- Texts go on a page that is not on a fresh line one after the other, and nothing with them. -/
theorem Page.applyAll_texts {page : Page} (h : page.fresh = false) (texts : List String) :
    page.applyAll (texts.map .text) =
      { page with parts := page.parts ++ (texts.filter (!·.isEmpty)).toArray } := by
  induction texts generalizing page with
  | nil => simp [applyAll]
  | cons s texts ih =>
    have howed : page.owed = none := by simpa [fresh] using h
    have hstep : page.apply (.text s) =
        if s.isEmpty then page else { page with parts := page.parts.push s } := by
      simp [apply, append, settle, howed]
    have hfresh : (page.apply (.text s)).fresh = false := by
      rw [fresh_apply, Stroke.freshAfter, h, Bool.false_and]
    rw [List.map_cons, applyAll, List.foldl_cons, ← applyAll, ih hfresh, hstep]
    cases hs : s.isEmpty <;> simp [hs]

theorem join_filter_nonempty (texts : List String) :
    String.join (texts.filter (!·.isEmpty)) = String.join texts := by
  induction texts with
  | nil => rfl
  | cons s texts ih =>
    cases hs : s.isEmpty with
    | true =>
      obtain rfl : s = "" := String.isEmpty_iff.1 hs
      simpa using ih
    | false => simp [hs, ih]

namespace Token.OneLine

variable {store : Store} {id : TokenId} {t : Token}

theorem run_multiline (h : t.OneLine store) (ht : store.tree? id = some t) (limits : Thresholds) :
    (Build.multiline limits id).run store = (.ok false, store) := by
  have hrun := h.run_readMultiline (Store.standsIn_of_tree? ht).2 limits
  rw [Build.multiline, Attempt.run_bind, Build.run_tree ht]
  simp only [Build.reading, hrun]

theorem write_eq (h : t.OneLine store) (ht : store.tree? id = some t) (hw : t.Writable)
    (limits : Thresholds) (level : Int) {page : Page} (hpage : page.fresh = false) :
    ∃ texts : Array String, String.join texts.toList = t.flat ∧
      store.write limits id level page =
        (.ok (), { page with parts := page.parts ++ texts }, store) := by
  have hinline : (t.write limits level).Inline store.memo t.flat :=
    inline_write hw (Store.standsIn_of_tree? ht).2 h level
  obtain ⟨texts, hrun, hflat⟩ := hinline
  refine ⟨(texts.filter (!·.isEmpty)).toArray, by rw [← hflat, ← join_filter_nonempty texts], ?_⟩
  simp only [Store.write, ht, Page.write, hpage, hrun, Page.applyAll_texts hpage]

theorem run_render (h : t.OneLine store) (ht : store.tree? id = some t) (hw : t.Writable)
    (settings : Settings) :
    (Build.render settings (.token id)).run store =
      (.ok (.ofText t.kind settings.newline t.flat), store) := by
  have hinline : (t.write settings.toThresholds 0).Inline store.memo t.flat :=
    inline_write hw (Store.standsIn_of_tree? ht).2 h 0
  obtain ⟨texts, hrun, hflat⟩ := hinline
  have hfresh : settings.page.fresh = false := rfl
  have hbuild : (settings.page.applyAll (texts.map .text)).build = t.flat := by
    rw [Page.applyAll_texts hfresh, Page.build, Settings.page, ← hflat]
    simp [join_filter_nonempty]
  rw [Build.run_render settings ht]
  simp only [render, Page.write, hfresh, hrun, hbuild]
  rfl

end Token.OneLine

/-- In a sound store, reading that a tree takes one line makes it known of all of it. -/
theorem Store.oneLine_of_multiline {store : Store} (hsound : store.Sound fun _ => True)
    {id : TokenId} {t : Token} (ht : store.tree? id = some t)
    (hforced : t.Every fun u => u.forced? ≠ some false) {limits : Thresholds}
    (hread : ((Build.multiline limits id).run store).1 = .ok false) :
    let after := ((Build.multiline limits id).run store).2
    Evolves (fun _ => True) store after ∧ t.StandsIn after ∧ t.OneLine after := by
  obtain ⟨hentries, hevolves, hknown⟩ := Build.known_multiline ht hread
  obtain ⟨rfl, hs⟩ := standsIn_of_tree? ht
  have hstands := hs.of_entries_eq hentries
  exact ⟨hevolves, hstands, (hevolves.sound hsound).oneLine hstands hforced hknown⟩

/-- Once a tree in which no group is forced to one line is found to take one line, every token of it
is found to, then and ever after, under whatever settings. It is written on a page that is not on a
fresh line as its flat text and nothing else, at whatever level, and rendered as its flat text. -/
theorem Session.Runs.writes_flat {settings : Settings} {session : Session}
    (h : Runs (Step.Plain fun _ => True) { settings } session) {id : TokenId} {t : Token}
    (ht : session.store.tree? id = some t) (hw : t.Writable)
    (hforced : ∀ u ∈ t.walk, u.forced? ≠ some false) {limits : Thresholds}
    (hread : ((Build.multiline limits id).run session.store).1 = .ok false) :
    let after := ((Build.multiline limits id).run session.store).2
    ∀ later, Runs (Step.Plain fun _ => True) { session with store := after } later →
      (∀ u ∈ t.walk, ∀ limits,
        (Build.multiline limits u.tag.id).run later.store = (.ok false, later.store)) ∧
      (∀ limits (level : Int) (page : Page), page.fresh = false →
        ∃ texts : Array String, String.join texts.toList = t.flat ∧
          later.store.write limits id level page =
            (.ok (), { page with parts := page.parts ++ texts }, later.store)) ∧
      ∀ settings, (Build.render settings (.token id)).run later.store =
        (.ok (.ofText t.kind settings.newline t.flat), later.store) := by
  intro after later hlater
  rw [Token.walk_eq_preorder] at hforced ⊢
  have hadvances := h.advances (proper_start settings)
  have hsound : session.store.Sound fun _ => True :=
    Evolves.sound (Advances.evolves hadvances) (Store.sound_unmeasured {})
  obtain ⟨hevolves, hs, hone⟩ := Store.oneLine_of_multiline hsound ht hforced hread
  have hproper : Proper (fun _ => True) { session with store := after } :=
    ((proper_start settings).advances hadvances).advances hevolves.advances
  have hkeeps : after.Keeps later.store := (Advances.evolves (hlater.advances hproper)).keeps
  obtain ⟨htree, hone'⟩ := hone.later hs hkeeps
  rw [(Store.standsIn_of_tree? ht).1] at htree
  have hw' := hw.mapTag later.store.remark
  refine ⟨fun u hu limits => ?_, fun limits level page hpage => ?_, fun settings => ?_⟩
  · have hu' := Token.OneLine.later (hone.below hu) (hs.below hu) hkeeps
    exact hu'.2.run_multiline hu'.1 limits
  · rw [← t.flat_mapTag later.store.remark]
    exact hone'.write_eq htree hw' limits level hpage
  · rw [← t.flat_mapTag later.store.remark, ← t.kind_mapTag later.store.remark]
    exact hone'.run_render htree hw' settings

/-- A list in brackets beside itself, found to take one line. -/
def Script.terse : Script :=
  [.bind "a" (.leaf (.datum (.text "ab")) { breakable := true }),
    .bind "g" (.group (.each [.named "a", .named "a"]) true none {}),
    .bind "b" (.bracket (.named "g") (.datum (.text "(")) (.datum (.text ")")) true false {}),
    .bind "t" (.group (.each [.named "g", .named "b"]) false none {})]

/-- The settings become tight, and leaves are set deeper. -/
def Script.tightening : Script :=
  [.setSettings [(SettingsField.maxLength.name, .int 1)],
    .set "b" Property.breakable.name (.datum (.bool true)),
    .set "a" Property.inset.name (.datum (.int 4)), .render (.named "t") .active]

theorem Session.Runs.writes_flat_tightened :
    let session := ((Step.runAll Script.terse).run {}).2
    let after := ((Build.multiline {} 3).run session.store).2
    let later := ((Step.runAll Script.tightening).run { session with store := after }).2
    Runs (Step.Plain fun _ => True) {} session ∧
      Runs (Step.Plain fun _ => True) { session with store := after } later ∧
      later.settings.maxLength = 1 ∧ later.store ≠ after ∧
      ∃ t, session.store.tree? 3 = some t ∧ t.Writable ∧
        ((Build.multiline {} 3).run session.store).1 = .ok false ∧
        (Build.render later.settings (.token 3)).run later.store =
          (.ok (.ofText .group later.settings.newline "ab, ab(ab, ab)"), later.store) ∧
        ∃ texts : Array String, String.join texts.toList = "ab, ab(ab, ab)" ∧
          later.store.write { maxLength := 0 } 3 (-1) {} =
            (.ok (), { parts := #[] ++ texts }, later.store) := by
  intro session after later
  have hrun : Runs (Step.Plain fun _ => True) {} session :=
    runs_runAll {} (by simp [Script.terse, Step.Plain])
  have hlater : Runs (Step.Plain fun _ => True) { session with store := after } later :=
    runs_runAll _ (by simp [Script.tightening, Step.Plain, Fields.Allowed, SettingsChoice.Allowed])
  have hread : ((Build.multiline {} 3).run session.store).1 = .ok false := by decide +kernel
  have hfound : (session.store.tree? 3).map (fun t => (t.kind, t.flat, decide t.Writable,
      decide (∀ u ∈ t.preorder, u.forced? ≠ some false))) =
        some (.group, "ab, ab(ab, ab)", true, true) := by
    decide +kernel
  obtain ⟨t, ht, heq⟩ := Option.map_eq_some_iff.1 hfound
  simp only [Prod.mk.injEq, decide_eq_true_eq, ← Token.walk_eq_preorder] at heq
  obtain ⟨hkind, hflat, hw, hforced⟩ := heq
  obtain ⟨-, hwrite, hrender⟩ := writes_flat hrun ht hw hforced hread later hlater
  rw [hflat] at hwrite
  simp only [hflat, hkind] at hrender
  exact ⟨hrun, hlater, by decide +kernel, by decide +kernel, t, ht, hw, hread,
    hrender later.settings, hwrite _ (-1) {} rfl⟩

end TokenLayout
