import TokenLayout.Proofs.Sessions

/-!
# The memo is faithful

In a store that is `Sound` every filled cell holds what is known of the group it belongs to, and it
was decided under thresholds that are allowed. Changes keep stores sound (`Change.sound`): a cell is
filled from what is known, and what is known stays known. If only one pair of thresholds is allowed,
what is known is what the tree alone gives (`Store.Sound.length?_of_known`,
`Store.Sound.multiline?_of_known`), so a reading through the memo finds the same as a measurement
from scratch, and so does a layout.

`Store.Faithful` puts this together for a store, and `Session.Reached.store_faithful` says that
every reached session has it.
-/

namespace TokenLayout

/-- Every filled cell belongs to a group and holds what is known of it. -/
structure Store.Sound (allowed : Thresholds → Prop) (store : Store) : Prop where
  length : ∀ id n, (store.memo.get id).length = some n → ∃ marks commas forced parts,
    store.find? id = some ⟨marks, .group commas forced parts⟩ ∧ store.KnownLengths parts n
  multiline : ∀ id b, (store.memo.get id).multiline = some b → ∃ marks commas forced parts,
    store.find? id = some ⟨marks, .group commas forced parts⟩ ∧
      ∃ limits, allowed limits ∧ store.Verdict limits id forced parts b

/-! ## Changes keep a store sound -/

namespace Store

variable {allowed : Thresholds → Prop} {store store' : Store}

/-- The same tokens with nothing measured. -/
def unmeasured (store : Store) : Store :=
  { store with memo := {} }

theorem sound_unmeasured (store : Store) : store.unmeasured.Sound allowed :=
  ⟨fun _ _ hn => (nomatch hn), fun _ _ hb => (nomatch hb)⟩

/-- A filled cell is still sound later on. -/
theorem Sound.length_mono (hs : store.Sound allowed) (hk : store.Keeps store') {id : TokenId}
    {n : Int} (hn : (store.memo.get id).length = some n) : ∃ marks commas forced parts,
      store'.find? id = some ⟨marks, .group commas forced parts⟩ ∧
        store'.KnownLengths parts n := by
  obtain ⟨marks, commas, forced, parts, hid, hknown⟩ := hs.length id n hn
  obtain ⟨marks', hid'⟩ := hk.node id marks _ hid (Or.inl (measured_of_length hn))
  exact ⟨marks', commas, forced, parts, hid', hknown.mono hk⟩

theorem Sound.multiline_mono (hs : store.Sound allowed) (hk : store.Keeps store') {id : TokenId}
    {b : Bool} (hb : (store.memo.get id).multiline = some b) : ∃ marks commas forced parts,
      store'.find? id = some ⟨marks, .group commas forced parts⟩ ∧
        ∃ limits, allowed limits ∧ store'.Verdict limits id forced parts b := by
  obtain ⟨marks, commas, forced, parts, hid, limits, hlimits, hverdict⟩ := hs.multiline id b hb
  obtain ⟨marks', hid'⟩ := hk.node id marks _ hid (Or.inl (measured_of_multiline hb))
  exact ⟨marks', commas, forced, parts, hid', limits, hlimits, hverdict.mono hk⟩

/-- A change that fills nothing keeps a store sound. -/
theorem Sound.of_memo_eq (hs : store.Sound allowed) (hk : store.Keeps store')
    (hmemo : store'.memo = store.memo) : store'.Sound allowed :=
  ⟨fun _ _ hn => hs.length_mono hk (hmemo ▸ hn), fun _ _ hb => hs.multiline_mono hk (hmemo ▸ hb)⟩

end Store

theorem Fill.sound {allowed : Thresholds → Prop} {limits : Thresholds} {store store' : Store}
    (hlimits : allowed limits) (h : Fill limits store store') (hs : store.Sound allowed) :
    store'.Sound allowed := by
  have hk := h.keeps
  cases h with
  | @length id marks commas forced parts n hid hold hn =>
    refine ⟨fun other m hm => ?_, fun other b hb => hs.multiline_mono hk (by simpa using hb)⟩
    rw [Memo.length_fillLength] at hm
    split at hm
    · rename_i heq
      subst heq
      exact ⟨marks, commas, forced, parts, hid, Option.some.inj hm ▸ hn.mono hk⟩
    · exact hs.length_mono hk hm
  | @multiline id marks commas forced parts b hid hold hb =>
    refine ⟨fun other n hn => hs.length_mono hk (by simpa using hn), fun other c hc => ?_⟩
    rw [Memo.multiline_fillMultiline] at hc
    split at hc
    · rename_i heq
      subst heq
      exact ⟨marks, commas, forced, parts, hid, limits, hlimits,
        Option.some.inj hc ▸ hb.mono hk⟩
    · exact hs.multiline_mono hk hc

theorem Change.sound {allowed : Thresholds → Prop} {store store' : Store}
    (h : Change allowed store store') (hs : store.Sound allowed) : store'.Sound allowed := by
  have hk := h.keeps
  cases h with
  | fill hlimits hfill => exact hfill.sound hlimits hs
  | make => exact hs.of_memo_eq hk rfl
  | mark => exact hs.of_memo_eq hk rfl
  | attach => exact hs.of_memo_eq hk rfl

theorem Evolves.sound {allowed : Thresholds → Prop} {store store' : Store}
    (h : Evolves allowed store store') (hs : store.Sound allowed) : store'.Sound allowed := by
  induction h with
  | refl => exact hs
  | tail _ hc ih => exact hc.sound ih

/-! ## What is known is what the tree gives -/

namespace Store.Sound

open Token

variable {allowed : Thresholds → Prop} {limits : Thresholds} {store : Store}

theorem lengths?_of_known : ∀ {ts : List Token} {n : Int},
    (∀ t ∈ ts, ∀ m, store.KnownLength t.tag.id m → t.length? = some m) →
    store.KnownLengths (ts.map fun t => t.tag.id) n → lengths? ts = some n
  | [], _, _, h => by
    cases h
    rfl
  | t :: ts, _, ht, h => by
    cases h with
    | cons hn hm =>
      rw [lengths?, ht t (by simp) _ hn, lengths?_of_known (fun u hu => ht u (by simp [hu])) hm]
      rfl

/-- A known length is the length of the tree. -/
theorem length?_of_known (hsound : store.Sound allowed) {t : Token} (hs : t.StandsIn store)
    {n : Int} (h : store.KnownLength t.tag.id n) : t.length? = some n := by
  induction t using children_induction generalizing n with
  | step t ih =>
    cases h with
    | leaf hid =>
      obtain ⟨tag, rfl⟩ := hs.eq_leaf rfl hid
      rfl
    | foreign hid =>
      obtain ⟨tag, rfl⟩ := hs.eq_foreign rfl hid
      rfl
    | bracket hid hbody =>
      obtain ⟨tag, body, rfl, rfl⟩ := hs.eq_bracket rfl hid
      rw [length?, ih body (by simp [children]) hs.body hbody]
      rfl
    | group hid hn =>
      obtain ⟨marks, commas, forced, ids, hid', hknown⟩ := hsound.length _ n hn
      obtain ⟨tag, parts, rfl, rfl⟩ := hs.eq_group rfl hid'
      rw [length?]
      exact lengths?_of_known (fun p hp m hm => ih p hp (hs.part p hp) hm) hknown

theorem anyMultiline?_of_known : ∀ {ts : List Token} {b : Bool},
    (∀ t ∈ ts, ∀ c, store.KnownMultiline t.tag.id c → t.multiline? limits = some c) →
    store.KnownAny (ts.map fun t => t.tag.id) b → anyMultiline? limits ts = some b
  | [], _, _, h => by
    cases h
    rfl
  | t :: ts, _, ht, h => by
    cases h with
    | found hid =>
      rw [anyMultiline?, ht t (by simp) _ hid]
      rfl
    | next hid hids =>
      rw [anyMultiline?, ht t (by simp) _ hid]
      exact anyMultiline?_of_known (fun u hu => ht u (by simp [hu])) hids

/-- A decision of a group that was taken under `limits` is the one that its tree gives. -/
theorem multiline?_of_verdict (hsound : store.Sound allowed) {tag : Tag} {commas : Bool}
    {forced : Option Bool} {parts : List Token}
    (hs : (group tag commas forced parts).StandsIn store) {b : Bool}
    (hparts : ∀ p ∈ parts, ∀ c, store.KnownMultiline p.tag.id c → p.multiline? limits = some c)
    (h : store.Verdict limits tag.id forced (parts.map fun part => part.tag.id) b) :
    (group tag commas forced parts).multiline? limits = some b := by
  cases forced with
  | some decision =>
    obtain rfl : b = decision := h
    rw [multiline?]
  | none =>
    obtain ⟨n, hn, hb⟩ := h
    have hlength : lengths? parts = some n :=
      hsound.length?_of_known hs (.group hs.find? hn)
    rw [List.length_map] at hb
    rw [multiline?, hlength]
    show (if limits.exceeded n parts.length then some true else anyMultiline? limits parts) = some b
    split at hb <;> rename_i hexceeded
    · rw [if_pos hexceeded, hb]
    · rw [if_neg hexceeded]
      exact anyMultiline?_of_known hparts hb

/-- A known decision is the one that the tree gives, if `limits` are the only thresholds. -/
theorem multiline?_of_known (hsound : store.Sound (· = limits)) {t : Token}
    (hs : t.StandsIn store) {b : Bool} (h : store.KnownMultiline t.tag.id b) :
    t.multiline? limits = some b := by
  induction t using children_induction generalizing b with
  | step t ih =>
    cases h with
    | leaf hid =>
      obtain ⟨tag, rfl⟩ := hs.eq_leaf rfl hid
      rw [multiline?]
    | foreign hid =>
      obtain ⟨tag, rfl⟩ := hs.eq_foreign rfl hid
      rw [multiline?]
    | bracket hid hbody =>
      obtain ⟨tag, body, rfl, rfl⟩ := hs.eq_bracket rfl hid
      rw [multiline?, ih body (by simp [children]) hs.body hbody]
      rfl
    | group hid hb =>
      obtain ⟨marks, commas, forced, ids, hid', _, rfl, hverdict⟩ := hsound.multiline _ b hb
      obtain ⟨tag, parts, rfl, rfl⟩ := hs.eq_group rfl hid'
      exact hsound.multiline?_of_verdict hs (fun p hp c hc => ih p hp (hs.part p hp) hc) hverdict

/-! ## Readings -/

theorem lengthsIn?_eq_lengths? {memo : Memo} : ∀ {ts : List Token},
    (∀ t ∈ ts, t.lengthIn? memo = t.length?) → lengthsIn? memo ts = lengths? ts
  | [], _ => rfl
  | t :: ts, h => by
    rw [lengthsIn?, lengths?, h t (by simp), lengthsIn?_eq_lengths? fun u hu => h u (by simp [hu])]

/-- The length found through the memo is the one of the tree. -/
theorem lengthIn?_eq (hsound : store.Sound allowed) {t : Token} (hs : t.StandsIn store) :
    t.lengthIn? store.memo = t.length? := by
  induction t using children_induction with
  | step t ih =>
    cases t with
    | leaf => rfl
    | blank => rfl
    | foreign => rfl
    | bracket tag frame body => rw [lengthIn?, length?, ih body (by simp [children]) hs.body]
    | group tag commas forced parts =>
      have hparts : lengthsIn? store.memo parts = lengths? parts :=
        lengthsIn?_eq_lengths? fun p hp => ih p hp (hs.part p hp)
      rw [lengthIn?]
      cases hn : (store.memo.get tag.id).length with
      | none => rw [Option.none_or, hparts, length?]
      | some n => rw [Option.some_or, hsound.length?_of_known hs (.group hs.find? hn)]

theorem anyMultilineIn?_eq_anyMultiline? {memo : Memo} : ∀ {ts : List Token},
    (∀ t ∈ ts, t.multilineIn? limits memo = t.multiline? limits) →
      anyMultilineIn? limits memo ts = anyMultiline? limits ts
  | [], _ => rfl
  | t :: ts, h => by
    rw [anyMultilineIn?, anyMultiline?, h t (by simp),
      anyMultilineIn?_eq_anyMultiline? fun u hu => h u (by simp [hu])]

/-- The decision found through the memo is the one of the tree. -/
theorem multilineIn?_eq (hsound : store.Sound (· = limits)) {t : Token} (hs : t.StandsIn store) :
    t.multilineIn? limits store.memo = t.multiline? limits := by
  induction t using children_induction with
  | step t ih =>
    cases t with
    | leaf => rfl
    | blank => rfl
    | foreign => rfl
    | bracket tag frame body =>
      rw [multilineIn?, multiline?, ih body (by simp [children]) hs.body]
    | group tag commas forced parts =>
      cases hb : (store.memo.get tag.id).multiline with
      | some b =>
        have hfound : (group tag commas forced parts).multilineIn? limits store.memo = some b := by
          cases forced <;> rw [multilineIn?, hb, Option.some_or]
        rw [hfound, hsound.multiline?_of_known hs (.group hs.find? hb)]
      | none =>
        cases forced with
        | some decision => rw [multilineIn?, multiline?, hb, Option.none_or]
        | none =>
          have hparts : anyMultilineIn? limits store.memo parts = anyMultiline? limits parts :=
            anyMultilineIn?_eq_anyMultiline? fun p hp => ih p hp (hs.part p hp)
          rw [multilineIn?, multiline?, hb, Option.none_or, hsound.lengthIn?_eq hs, hparts]
          rfl

/-- In sound stores of the same tokens the same decisions are found. -/
theorem agrees {store' : Store} (hsound : store.Sound (· = limits))
    (hsound' : store'.Sound (· = limits)) (he : store'.entries = store.entries) :
    store.Agrees limits store' :=
  ⟨he, fun _ hs => by
    rw [hsound'.multilineIn?_eq (hs.of_entries_eq he), hsound.multilineIn?_eq hs]⟩

/-- A token is written the same way as if nothing was measured. -/
theorem write_eq (hsound : store.Sound (· = limits)) {t : Token} (hs : t.StandsIn store)
    (level : Int) (fresh : Bool) :
    ((t.write limits level).run fresh store.memo).strokes =
        ((t.write limits level).run fresh store.unmeasured.memo).strokes ∧
      ((t.write limits level).run fresh store.memo).result =
        ((t.write limits level).run fresh store.unmeasured.memo).result := by
  obtain ⟨strokes, result, hplan⟩ := t.steady_write level hs fresh
  obtain ⟨memo, hrun, -⟩ := hplan store (.refl store)
  obtain ⟨memo', hrun', -⟩ := hplan _ (hsound.agrees store.sound_unmeasured rfl)
  exact ⟨by rw [hrun, hrun'], by rw [hrun, hrun']⟩

end Store.Sound

/-! ## Faithful stores -/

theorem Token.lengths?_eq_none_iff : ∀ {ts : List Token},
    lengths? ts = none ↔ ∃ t ∈ ts, t.length? = none
  | [] => by simp [lengths?]
  | t :: ts => by
    rw [lengths?]
    cases ht : t.length? with
    | none => simp [ht]
    | some n =>
      have hts : lengths? ts = none ↔ ∃ t ∈ ts, t.length? = none := lengths?_eq_none_iff
      cases hm : lengths? ts with
      | none => simpa [ht] using hts.1 hm
      | some m => simpa [ht, hm] using hts

/-- A tree has no length exactly if one of its tokens is blank. -/
theorem Token.length?_eq_none_iff (t : Token) :
    t.length? = none ↔ ∃ u ∈ t.preorder, u.kind = .blank := by
  induction t using children_induction with
  | step t ih =>
    have hbelow : (∃ u ∈ t.preorder, u.kind = .blank) ↔
        t.kind = .blank ∨ ∃ c ∈ t.children, c.length? = none := by
      constructor
      · rintro ⟨u, hu, hblank⟩
        rcases mem_preorder_iff.1 hu with rfl | ⟨c, hc, hu⟩
        · exact Or.inl hblank
        · exact Or.inr ⟨c, hc, (ih c hc).2 ⟨u, hu, hblank⟩⟩
      · rintro (hblank | ⟨c, hc, hnone⟩)
        · exact ⟨t, t.mem_preorder_self, hblank⟩
        · obtain ⟨u, hu, hblank⟩ := (ih c hc).1 hnone
          exact ⟨u, mem_preorder_iff.2 (Or.inr ⟨c, hc, hu⟩), hblank⟩
    rw [hbelow]
    cases t with
    | leaf tag role text => cases role <;> simp [length?, kind, children, LeafRole.kind]
    | group tag commas forced parts => simp [length?, kind, children, lengths?_eq_none_iff]
    | bracket tag frame body => cases hb : body.length? <;> simp [length?, kind, children, hb]
    | blank => simp [length?, kind]
    | foreign => simp [length?, kind, children]

/-- Cells, readings, layouts and renderings of a store are those of its trees alone, whatever was
read before. -/
structure Store.Faithful (limits : Thresholds) (store : Store) : Prop where
  length_cell : ∀ id t n, store.tree? id = some t → (store.memo.get id).length = some n →
    t.length? = some n
  multiline_cell : ∀ id t b, store.tree? id = some t → (store.memo.get id).multiline = some b →
    t.multiline? limits = some b
  /-- A length is read as it is, and the fault of having none comes up exactly if the tree has none,
  which is to say that one of its tokens is blank. -/
  length_read : ∀ id t, store.tree? id = some t →
    ((Build.length id).run store).1 = t.length?.elim (.error .unmeasurable) .ok ∧
      (t.length? = none ↔ ∃ u ∈ t.walk, u.kind = .blank)
  multiline_read : ∀ id t, store.tree? id = some t →
    ((Build.multiline limits id).run store).1 =
      (t.multiline? limits).elim (.error .unmeasurable) .ok
  render : ∀ settings : Settings, settings.toThresholds = limits → ∀ root,
    ((Build.render settings root).run store).1 =
      ((Build.render settings root).run store.unmeasured).1
  /-- The result is the same, and so is the page. -/
  write : ∀ id level page,
    (store.write limits id level page).1 = (store.unmeasured.write limits id level page).1 ∧
      (store.write limits id level page).2.1 =
        (store.unmeasured.write limits id level page).2.1
  /-- There is a tree to speak of, but for tokens that contain themselves. -/
  exists_tree : store.Acyclic → ∀ id, id < store.entries.size → ∃ t, store.tree? id = some t

namespace Build

variable {store : Store} {id : TokenId} {t : Token}

theorem result_length (limits : Thresholds) (ht : store.tree? id = some t) :
    ((length id).run store).1 =
      (t.lengthIn? store.memo).elim (.error .unmeasurable) .ok := by
  obtain ⟨memo, hrun, -⟩ := t.leads_readLength limits (Store.standsIn_of_tree? ht).2
  rw [length, Attempt.run_bind, run_tree ht]
  simp only [reading, hrun]
  cases t.lengthIn? store.memo <;> rfl

theorem result_multiline (limits : Thresholds) (ht : store.tree? id = some t) :
    ((multiline limits id).run store).1 =
      (t.multilineIn? limits store.memo).elim (.error .unmeasurable) .ok := by
  obtain ⟨memo, hrun, -⟩ := t.leads_readMultiline limits (Store.standsIn_of_tree? ht).2
  rw [multiline, Attempt.run_bind, run_tree ht]
  simp only [reading, hrun]
  cases t.multilineIn? limits store.memo <;> rfl

end Build

namespace Store

variable {limits : Thresholds} {store : Store}

theorem tree?_unmeasured (store : Store) (id : TokenId) :
    store.unmeasured.tree? id = store.tree? id :=
  tree?_congr (show store.unmeasured.entries = store.entries from rfl) id

theorem Sound.render_eq (hsound : store.Sound (· = limits)) {settings : Settings}
    (hsettings : settings.toThresholds = limits) (root : Arg) :
    ((Build.render settings root).run store).1 =
      ((Build.render settings root).run store.unmeasured).1 := by
  subst hsettings
  cases root with
  | datum value => rfl
  | token id =>
    have hcongr := store.tree?_unmeasured id
    cases ht : store.tree? id with
    | none =>
      rw [ht] at hcongr
      simp [Build.render, Build.tree, Attempt.run_bind, Attempt.require, ht, hcongr]
    | some t =>
      obtain ⟨hstrokes, hresult⟩ := hsound.write_eq (standsIn_of_tree? ht).2 0 false
      rw [Build.result_render settings ht, Build.result_render settings (hcongr.trans ht),
        Token.result_render, Token.result_render, hstrokes, hresult]

theorem Sound.write_page_eq (hsound : store.Sound (· = limits)) (id : TokenId) (level : Int)
    (page : Page) :
    (store.write limits id level page).1 = (store.unmeasured.write limits id level page).1 ∧
      (store.write limits id level page).2.1 =
        (store.unmeasured.write limits id level page).2.1 := by
  rw [write, write, tree?_unmeasured]
  cases ht : store.tree? id with
  | none => exact ⟨rfl, rfl⟩
  | some t =>
    obtain ⟨hstrokes, hresult⟩ := hsound.write_eq (standsIn_of_tree? ht).2 level page.fresh
    exact ⟨hresult, congrArg page.applyAll hstrokes⟩

theorem Sound.faithful (hsound : store.Sound (· = limits)) (hclosed : store.Closed) :
    store.Faithful limits where
  length_cell id t n ht hn := by
    obtain ⟨rfl, hs⟩ := standsIn_of_tree? ht
    obtain ⟨marks, commas, forced, parts, hid, -⟩ := hsound.length _ n hn
    exact hsound.length?_of_known hs (.group hid hn)
  multiline_cell id t b ht hb := by
    obtain ⟨rfl, hs⟩ := standsIn_of_tree? ht
    obtain ⟨marks, commas, forced, parts, hid, -⟩ := hsound.multiline _ b hb
    exact hsound.multiline?_of_known hs (.group hid hb)
  length_read id t ht := by
    rw [Build.result_length limits ht, hsound.lengthIn?_eq (standsIn_of_tree? ht).2,
      Token.walk_eq_preorder]
    exact ⟨rfl, t.length?_eq_none_iff⟩
  multiline_read id t ht := by
    rw [Build.result_multiline limits ht, hsound.multilineIn?_eq (standsIn_of_tree? ht).2]
  render _ hsettings root := hsound.render_eq hsettings root
  write id level page := hsound.write_page_eq id level page
  exists_tree hacyclic _ hid := exists_tree_of_acyclic hclosed hacyclic hid

end Store

/-- In every session that is reached under one pair of thresholds, what the memo has and what is
read, written and rendered through it is what the trees alone give. -/
theorem Session.Reached.store_faithful {limits : Thresholds} {session : Session}
    (h : session.Reached (· = limits)) : session.store.Faithful limits := by
  have hsound : session.store.Sound (· = limits) :=
    h.invariant (Store.sound_unmeasured {}) fun _ _ hc hs => hc.sound hs
  have hclosed : session.store.Closed :=
    h.invariant (fun _ _ ⟨_, hentry, _⟩ => nomatch hentry) fun _ _ hc hs => hc.closed hs
  exact hsound.faithful hclosed

/-- A group stands in a bracket and beside it in another group, is measured with them, and then
refuses one more part. -/
def Script.sharing : Script :=
  [.bind "x" (.group (.each [.leaf (.datum (.text "ab")) {}, .leaf (.datum (.text "cd")) {}])
      true none {}),
    .bind "b" (.bracket (.named "x") (.datum (.text "(")) (.datum (.text ")")) false false {}),
    .bind "g" (.group (.each [.named "x", .named "b"]) false none {}),
    .get "g" Property.multiline.name,
    .addText "x" (.text "late") {}]

theorem Session.Reached.store_faithful_sharing :
    let session := ((Step.runAll Script.sharing).run {}).2
    session.Reached (· = {}) ∧ (session.store.memo.get 2).length = some 4 ∧
      (session.store.memo.get 4).length = some 10 ∧ session.store.Faithful {} := by
  have hreached : ((Step.runAll Script.sharing).run {}).2.Reached (· = {}) :=
    .runAll (.start rfl) (by simp [Script.sharing, Step.AllPlain, Step.Plain])
  exact ⟨hreached, by decide +kernel, by decide +kernel, hreached.store_faithful⟩

end TokenLayout
