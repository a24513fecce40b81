import TokenLayout.Proofs.Decided
import TokenLayout.Proofs.Runs

/-!
# Laid-out trees do not grow

A group takes no parts once it is measured. `Store.LaysOut` lists what lays a tree out: reading its
length, or whether it takes several lines if that is not decided without it, measuring it, rendering
it and writing it. Any of these measures every group of the tree. For the last three that is what
they do token by token. For a reading it holds because a length is found from the lengths below it,
and they are kept: `Store.Settled` says so of the whole store, and every turn keeps it.

From then on the tree has the same tokens with the same tokens below them, whatever else becomes of
them (`Token.Measured.exists_tree`), and all of its groups refuse to grow.
`Session.Runs.closed_to_growth` puts this together, with what a refusal leaves behind, which is
nothing.
-/

namespace TokenLayout

/-! ## Outlines -/

namespace Node

variable {node : Node}

theorem kind_eq_of_outline_eq {node' : Node} (h : node'.outline = node.outline) :
    node'.kind = node.kind := by
  have hkind (node : Node) : node.outline.1 = node.kind := by cases node <;> rfl
  rw [← hkind, h, hkind]

/-- Tokens of the same outline have the same tokens below them. -/
theorem below_eq_of_outline_eq {node' : Node} (h : node'.outline = node.outline) :
    node'.below = node.below := by
  have hbelow (node : Node) : node.outline.2.2 = node.below := by cases node <;> rfl
  rw [← hbelow, h, hbelow]

/-- Only its commas may be different in a group of the same outline. -/
theorem eq_group_of_outline_eq {commas : Bool} {forced : Option Bool} {parts : List TokenId}
    (h : node.outline = (group commas forced parts).outline) :
    ∃ commas', node = group commas' forced parts := by
  cases node with
  | leaf role text => exact absurd (kind_eq_of_outline_eq h) (kind_leaf_ne_group role text)
  | group commas' => exact ⟨commas', by simpa [outline] using h⟩
  | _ => simp [outline, kind] at h

theorem eq_leaf_of_outline_eq {role : LeafRole} {text : String}
    (h : node.outline = (leaf role text).outline) : ∃ role' text', node = leaf role' text' := by
  cases node with
  | leaf role' text' => exact ⟨role', text', rfl⟩
  | _ => cases role <;> simp [outline, kind, LeafRole.kind] at h

theorem eq_bracket_of_outline_eq {frame : Frame} {body : TokenId}
    (h : node.outline = (bracket frame body).outline) : ∃ frame', node = bracket frame' body := by
  cases node with
  | leaf role => cases role <;> simp [outline, kind, LeafRole.kind] at h
  | bracket frame' => exact ⟨frame', by simpa [outline, kind, below] using h⟩
  | _ => simp [outline, kind] at h

theorem eq_foreign_of_outline_eq {length : Int} {multiline : Bool}
    (h : node.outline = (foreign length multiline).outline) :
    ∃ length' multiline', node = foreign length' multiline' := by
  cases node with
  | leaf role => cases role <;> simp [outline, kind, LeafRole.kind] at h
  | foreign length' multiline' => exact ⟨length', multiline', rfl⟩
  | _ => simp [outline, kind] at h

end Node

/-! ## What stays -/

/-- Filled cells keep their values, and tokens keep their outlines, but for groups that are not
measured yet. -/
structure Store.Retains (store store' : Store) : Prop where
  length : ∀ id n, (store.memo.get id).length = some n → (store'.memo.get id).length = some n
  multiline : ∀ id b,
    (store.memo.get id).multiline = some b → (store'.memo.get id).multiline = some b
  outline : ∀ id entry, store.find? id = some entry →
    ((store.memo.get id).measured = true ∨ entry.node.kind ≠ .group) →
      ∃ entry', store'.find? id = some entry' ∧ entry'.node.outline = entry.node.outline

/-- A token is measured if one of its two cells is filled. -/
theorem Cells.measured_iff {cells : Cells} :
    cells.measured = true ↔ (∃ n, cells.length = some n) ∨ ∃ b, cells.multiline = some b := by
  rw [measured, Bool.or_eq_true, Option.isSome_iff_exists, Option.isSome_iff_exists]

namespace Store

variable {store store' store'' : Store}

/-- A store that keeps content keeps its outline. -/
theorem Keeps.retains (h : store.Keeps store') : store.Retains store' := by
  refine ⟨h.length, h.multiline, fun id entry hid hm => ?_⟩
  obtain ⟨marks', hid'⟩ := h.node id entry.marks entry.node hid hm
  exact ⟨_, hid', rfl⟩

theorem Retains.measured (h : store.Retains store') {id : TokenId}
    (hm : (store.memo.get id).measured = true) : (store'.memo.get id).measured = true :=
  Cells.measured_iff.2 <| (Cells.measured_iff.1 hm).imp (fun ⟨n, hn⟩ => ⟨n, h.length id n hn⟩)
    fun ⟨b, hb⟩ => ⟨b, h.multiline id b hb⟩

theorem Retains.trans (h : store.Retains store') (h' : store'.Retains store'') :
    store.Retains store'' := by
  refine ⟨fun id n hn => h'.length id n (h.length id n hn),
    fun id b hb => h'.multiline id b (h.multiline id b hb), fun id entry hid hm => ?_⟩
  obtain ⟨entry', hid', houtline⟩ := h.outline id entry hid hm
  have hkind := Node.kind_eq_of_outline_eq houtline
  obtain ⟨entry'', hid'', houtline'⟩ :=
    h'.outline id entry' hid' (hm.imp h.measured fun hne => hkind ▸ hne)
  exact ⟨entry'', hid'', houtline'.trans houtline⟩

/-- A length that is known stays known, though it may be another one. -/
theorem Retains.exists_knownLength (hk : store.Retains store') {id : TokenId} {n : Int}
    (h : store.KnownLength id n) : ∃ m, store'.KnownLength id m := by
  induction h with
  | @leaf id marks role text hid =>
    obtain ⟨⟨marks', node'⟩, hid', houtline⟩ :=
      hk.outline id _ hid (Or.inr (Node.kind_leaf_ne_group role text))
    obtain ⟨role', text', rfl⟩ := Node.eq_leaf_of_outline_eq houtline
    exact ⟨_, .leaf hid'⟩
  | @group id marks commas forced parts n hid hn =>
    obtain ⟨⟨marks', node'⟩, hid', houtline⟩ :=
      hk.outline id _ hid (Or.inl (measured_of_length hn))
    obtain ⟨commas', rfl⟩ := Node.eq_group_of_outline_eq houtline
    exact ⟨n, .group hid' (hk.length id n hn)⟩
  | @bracket id marks frame body n hid _ ih =>
    obtain ⟨m, hm⟩ := ih
    obtain ⟨⟨marks', node'⟩, hid', houtline⟩ := hk.outline id _ hid (Or.inr (by simp [Node.kind]))
    obtain ⟨frame', rfl⟩ := Node.eq_bracket_of_outline_eq houtline
    exact ⟨_, .bracket hid' hm⟩
  | @foreign id marks length multiline hid =>
    obtain ⟨⟨marks', node'⟩, hid', houtline⟩ := hk.outline id _ hid (Or.inr (by simp [Node.kind]))
    obtain ⟨length', multiline', rfl⟩ := Node.eq_foreign_of_outline_eq houtline
    exact ⟨_, .foreign hid'⟩

end Store

/-- Nothing is measured or forgotten by an assignment. -/
theorem Reassign.memo_eq {store store' : Store} (h : Reassign store store') :
    store'.memo = store.memo := by
  cases h <;> rfl

/-- An assignment that is no new body leaves every outline. -/
theorem Reassign.retains {store store' : Store} (h : Reassign store store') :
    store.Retains store' := by
  refine ⟨fun id n hn => by rwa [h.memo_eq], fun id b hb => by rwa [h.memo_eq],
    fun id entry hid _ => ?_⟩
  cases h with
  | mark other f =>
    rw [Store.find?_modify, hid]
    split
    · exact ⟨_, rfl, rfl⟩
    · exact ⟨_, rfl, rfl⟩
  | @content other old node hold hnode =>
    rw [Store.find?_modify, hid]
    split
    · rename_i heq
      obtain rfl : old = entry := Option.some.inj (hold.symm.trans (heq ▸ hid))
      exact ⟨_, rfl, hnode⟩
    · exact ⟨_, rfl, rfl⟩

/-! ## Settled stores -/

/-- What is filled rests on what is filled below: a group with a length has parts of known lengths,
and a group that decided for itself has a length. -/
structure Store.Settled (store : Store) : Prop where
  length : ∀ id n, (store.memo.get id).length = some n → ∃ marks commas forced parts,
    store.find? id = some ⟨marks, .group commas forced parts⟩ ∧
      ∀ part ∈ parts, ∃ m, store.KnownLength part m
  multiline : ∀ id b, (store.memo.get id).multiline = some b → ∃ marks commas forced parts,
    store.find? id = some ⟨marks, .group commas forced parts⟩ ∧
      (forced = none → ∃ n, (store.memo.get id).length = some n)

namespace Store

variable {store store' : Store}

theorem settled_empty : ({} : Store).Settled :=
  ⟨fun _ _ hn => by simp [Memo.get] at hn, fun _ _ hb => by simp [Memo.get] at hb⟩

theorem Settled.length_mono (hs : store.Settled) (hk : store.Retains store') {id : TokenId}
    {n : Int} (hn : (store.memo.get id).length = some n) : ∃ marks commas forced parts,
      store'.find? id = some ⟨marks, .group commas forced parts⟩ ∧
        ∀ part ∈ parts, ∃ m, store'.KnownLength part m := by
  obtain ⟨marks, commas, forced, parts, hid, hparts⟩ := hs.length id n hn
  obtain ⟨⟨marks', node'⟩, hid', houtline⟩ :=
    hk.outline id _ hid (Or.inl (measured_of_length hn))
  obtain ⟨commas', rfl⟩ := Node.eq_group_of_outline_eq houtline
  refine ⟨marks', commas', forced, parts, hid', fun part hpart => ?_⟩
  obtain ⟨m, hm⟩ := hparts part hpart
  exact hk.exists_knownLength hm

theorem Settled.multiline_mono (hs : store.Settled) (hk : store.Retains store') {id : TokenId}
    {b : Bool} (hb : (store.memo.get id).multiline = some b) : ∃ marks commas forced parts,
      store'.find? id = some ⟨marks, .group commas forced parts⟩ ∧
        (forced = none → ∃ n, (store'.memo.get id).length = some n) := by
  obtain ⟨marks, commas, forced, parts, hid, hlength⟩ := hs.multiline id b hb
  obtain ⟨⟨marks', node'⟩, hid', houtline⟩ :=
    hk.outline id _ hid (Or.inl (measured_of_multiline hb))
  obtain ⟨commas', rfl⟩ := Node.eq_group_of_outline_eq houtline
  refine ⟨marks', commas', forced, parts, hid', fun hnone => ?_⟩
  obtain ⟨n, hn⟩ := hlength hnone
  exact ⟨n, hk.length id n hn⟩

/-- A turn that fills nothing keeps a store settled. -/
theorem Settled.of_memo_eq (hs : store.Settled) (hk : store.Retains store')
    (hmemo : store'.memo = store.memo) : store'.Settled :=
  ⟨fun _ _ hn => hs.length_mono hk (hmemo ▸ hn), fun _ _ hb => hs.multiline_mono hk (hmemo ▸ hb)⟩

theorem KnownLengths.exists_knownLength {ids : List TokenId} {n : Int}
    (h : store.KnownLengths ids n) : ∀ id ∈ ids, ∃ m, store.KnownLength id m := by
  induction h with
  | nil => simp
  | cons hid _ ih => exact List.forall_mem_cons.2 ⟨⟨_, hid⟩, ih⟩

end Store

/-- A cell is filled when those it depends on are. -/
theorem Fill.settled {limits : Thresholds} {store store' : Store} (h : Fill limits store store')
    (hs : store.Settled) : store'.Settled := by
  have hk := h.keeps
  cases h with
  | @length id marks commas forced parts n hid hold hn =>
    refine ⟨fun other m hm => ?_,
      fun other b hb => hs.multiline_mono hk.retains (by simpa using hb)⟩
    rw [Memo.length_fillLength] at hm
    split at hm
    · rename_i heq
      subst heq
      exact ⟨marks, commas, forced, parts, hid, (hn.mono hk).exists_knownLength⟩
    · exact hs.length_mono hk.retains hm
  | @multiline id marks commas forced parts b hid hold hb =>
    refine ⟨fun other n hn => hs.length_mono hk.retains (by simpa using hn), fun other c hc => ?_⟩
    rw [Memo.multiline_fillMultiline] at hc
    split at hc
    · rename_i heq
      subst heq
      refine ⟨marks, commas, forced, parts, hid, fun hnone => ?_⟩
      subst hnone
      obtain ⟨n, hn, -⟩ := hb.mono hk
      exact ⟨n, hn⟩
    · exact hs.multiline_mono hk.retains hc

/-- A measured group takes no part, so a change leaves what is settled. -/
theorem Change.settled {allowed : Thresholds → Prop} {store store' : Store}
    (h : Change allowed store store') (hs : store.Settled) : store'.Settled := by
  have hk := h.keeps.retains
  cases h with
  | fill _ hfill => exact hfill.settled hs
  | make => exact hs.of_memo_eq hk rfl
  | mark => exact hs.of_memo_eq hk rfl
  | attach => exact hs.of_memo_eq hk rfl

theorem Evolves.settled {allowed : Thresholds → Prop} {store store' : Store}
    (h : Evolves allowed store store') (hs : store.Settled) : store'.Settled := by
  induction h with
  | refl => exact hs
  | tail _ hc ih => exact hc.settled ih

namespace Session

variable {session session' : Session}

/-- A turn of a session leaves the outline of what is measured. -/
theorem Turn.retains (h : Turn session session') : session.store.Retains session'.store := by
  cases h with
  | assign hassign => exact hassign.retains
  | advance ha =>
    cases ha with
    | store hc => exact hc.keeps.retains
    | _ => exact (Store.Keeps.refl _).retains

theorem Turns.retains (h : Turns session session') : session.store.Retains session'.store := by
  induction h with
  | refl => exact (Store.Keeps.refl _).retains
  | tail _ hturn ih => exact ih.trans hturn.retains

theorem Turns.settled (h : Turns session session') (hs : session.store.Settled) :
    session'.store.Settled := by
  induction h with
  | refl => exact hs
  | tail _ hturn ih =>
    cases hturn with
    | assign hassign => exact ih.of_memo_eq hassign.retains hassign.memo_eq
    | advance ha =>
      cases ha with
      | store hc => exact hc.settled ih
      | _ => exact ih

end Session

/-! ## Measured trees -/

/-- The length of a bracket is known from that of its body. -/
theorem Store.KnownLength.body {store : Store} {id : TokenId} {n : Int}
    (h : store.KnownLength id n) {marks : Marks} {frame : Frame} {body : TokenId}
    (hid : store.find? id = some ⟨marks, .bracket frame body⟩) :
    ∃ m, store.KnownLength body m := by
  cases h with
  | bracket hid' hbody =>
    cases hid.symm.trans hid'
    exact ⟨_, hbody⟩
  | leaf hid' | group hid' | foreign hid' => cases hid.symm.trans hid'

namespace Token

/-- Every group of the tree is measured. -/
def Measured (memo : Memo) (token : Token) : Prop :=
  token.Every fun t => t.kind = .group → (memo.get t.tag.id).measured = true

/-- The number of a token with its outline. -/
def sketch (token : Token) : TokenId × Kind × Option Bool × List TokenId :=
  (token.tag.id, token.node.outline)

variable {store store' : Store} {t : Token}

/-- A tree on which all decisions are taken is measured throughout. -/
theorem Decided.measured (h : t.Decided store.memo) : t.Measured store.memo := by
  intro u hu hkind
  obtain ⟨b, hb⟩ := Option.isSome_iff_exists.1 (h u hu hkind)
  exact Store.measured_of_multiline hb

/-- In a settled store a tree of known length is measured all the way down. -/
theorem measured_of_knownLength (hsettled : store.Settled) (hs : t.StandsIn store) {n : Int}
    (h : store.KnownLength t.tag.id n) : t.Measured store.memo := by
  induction t using children_induction generalizing n with
  | step t ih =>
    cases t with
    | leaf tag role text =>
      refine every_iff.2 ⟨fun hkind => ?_, by simp [children]⟩
      cases role <;> simp [kind, LeafRole.kind] at hkind
    | blank | foreign => exact every_iff.2 ⟨by simp [kind], by simp [children]⟩
    | bracket tag frame body =>
      refine every_iff.2 ⟨by simp [kind], fun c hc => ?_⟩
      obtain rfl : c = body := List.mem_singleton.1 hc
      obtain ⟨m, hm⟩ := h.body hs.find?
      exact ih c hc hs.body hm
    | group tag commas forced parts =>
      have hcell := h.cell hs.find?
      obtain ⟨marks, commas', forced', ids, hid, hparts⟩ := hsettled.length _ n hcell
      obtain ⟨_, _, heq, rfl⟩ := hs.eq_group rfl hid
      cases heq
      refine every_iff.2 ⟨fun _ => Store.measured_of_length hcell, fun c hc => ?_⟩
      obtain ⟨m, hm⟩ := hparts c.tag.id (List.mem_map_of_mem hc)
      exact ih c hc (hs.part c hc) hm

theorem exists_of_node (tag : Tag) {node : Node} {us : List Token}
    (h : node.below = us.map fun u => u.tag.id) :
    ∃ u : Token, u.tag = tag ∧ u.node = node ∧ u.children = us := by
  cases node with
  | leaf role text =>
    obtain rfl : us = [] := List.map_eq_nil_iff.1 h.symm
    exact ⟨leaf tag role text, rfl, rfl, rfl⟩
  | group commas forced parts =>
    exact ⟨group tag commas forced us, rfl, congrArg (Node.group commas forced) h.symm, rfl⟩
  | bracket frame body =>
    obtain ⟨u, rfl, hu⟩ := List.map_eq_singleton_iff.1 h.symm
    exact ⟨bracket tag frame u, rfl, congrArg (Node.bracket frame) hu, rfl⟩
  | blank =>
    obtain rfl : us = [] := List.map_eq_nil_iff.1 h.symm
    exact ⟨blank tag, rfl, rfl, rfl⟩
  | foreign length multiline =>
    obtain rfl : us = [] := List.map_eq_nil_iff.1 h.symm
    exact ⟨foreign tag length multiline, rfl, rfl, rfl⟩

theorem map_preorders_map {α : Type} {g : Token → α} {f : Token → Token} {ts : List Token}
    (h : ∀ t ∈ ts, (f t).preorder.map g = t.preorder.map g) :
    (preorders (ts.map f)).map g = (preorders ts).map g := by
  induction ts with
  | nil => rfl
  | cons t ts ih =>
    rw [List.map_cons, preorders, preorders, List.map_append, List.map_append, h t (by simp),
      ih fun u hu => h u (by simp [hu])]

/-- Where a measured tree stood, a tree of the same outlines stands later on. -/
theorem Measured.exists_tree (h : t.Measured store.memo) (hs : t.StandsIn store)
    (hk : store.Retains store') :
    ∃ u : Token, u.tag.id = t.tag.id ∧ u.StandsIn store' ∧
      u.preorder.map sketch = t.preorder.map sketch := by
  induction t using children_induction with
  | step t ih =>
    have hmeasured : (store.memo.get t.tag.id).measured = true ∨ t.node.kind ≠ .group := by
      by_cases hkind : t.kind = .group
      · exact Or.inl (Every.root h hkind)
      · exact Or.inr (by rwa [kind_node])
    obtain ⟨⟨marks', node'⟩, hid', houtline⟩ := hk.outline _ _ hs.find? hmeasured
    have : Nonempty Token := ⟨t⟩
    have hchildren : ∀ c ∈ t.children, ∃ u : Token, u.tag.id = c.tag.id ∧ u.StandsIn store' ∧
        u.preorder.map sketch = c.preorder.map sketch :=
      fun c hc => ih c hc ((every_iff.1 h).2 c hc) ((every_iff.1 hs).2 c hc)
    choose! f hf using hchildren
    have hbelow : node'.below = (t.children.map f).map fun u => u.tag.id := by
      rw [Node.below_eq_of_outline_eq houtline, below_node, List.map_map]
      exact List.map_congr_left fun c hc => ((hf c hc).1).symm
    obtain ⟨u, hutag, hunode, huchildren⟩ :=
      exists_of_node { marks' with id := t.tag.id } hbelow
    refine ⟨u, by rw [hutag], every_iff.2 ⟨?_, ?_⟩, ?_⟩
    · rw [hutag, hunode]
      exact hid'
    · rw [huchildren]
      exact List.forall_mem_map.2 fun c hc => (hf c hc).2.1
    · have hroot : u.sketch = t.sketch := by rw [sketch, sketch, hutag, hunode, houtline]
      rw [preorder_eq, preorder_eq, huchildren, List.map_cons, List.map_cons, hroot,
        map_preorders_map fun c hc => (hf c hc).2.2]

/-- A tree of the same outlines is measured as well. -/
theorem Measured.of_sketch_eq {u : Token} (h : t.Measured store.memo) (hk : store.Retains store')
    (hsketch : u.preorder.map sketch = t.preorder.map sketch) : u.Measured store'.memo := by
  intro v hv hkind
  have hmem : v.sketch ∈ t.preorder.map sketch := hsketch ▸ List.mem_map_of_mem hv
  obtain ⟨w, hw, heq⟩ := List.mem_map.1 hmem
  obtain ⟨hid, houtline⟩ := Prod.mk.inj heq
  have hwkind : w.kind = .group := by
    rw [← kind_node, Node.kind_eq_of_outline_eq houtline, kind_node, hkind]
  rw [← hid]
  exact hk.measured (h w hw hwkind)

end Token

/-! ## Laying out -/

namespace Store

/-- The tree under a token is laid out, and `after` is the store then. -/
inductive LaysOut (store : Store) (id : TokenId) : (after : Store) → Prop
  | length {n : Int} (hok : ((Build.length id).run store).1 = .ok n) :
      LaysOut store id ((Build.length id).run store).2
  /-- A group that is not forced finds out by its length. -/
  | multiline {marks : Marks} {commas : Bool} {parts : List TokenId} {limits : Thresholds}
      {b : Bool} (hid : store.find? id = some ⟨marks, .group commas none parts⟩)
      (hok : ((Build.multiline limits id).run store).1 = .ok b) :
      LaysOut store id ((Build.multiline limits id).run store).2
  | measure {limits : Thresholds}
      (hok : ((Build.measure limits (.token id)).run store).1 = .ok ()) :
      LaysOut store id ((Build.measure limits (.token id)).run store).2
  | render {settings : Settings} {rendering : Rendering}
      (hok : ((Build.render settings (.token id)).run store).1 = .ok rendering) :
      LaysOut store id ((Build.render settings (.token id)).run store).2
  | write {limits : Thresholds} {level : Int} {page : Page}
      (hok : (store.write limits id level page).1 = .ok ()) :
      LaysOut store id (store.write limits id level page).2.2

variable {store after : Store} {id : TokenId} {t : Token}

theorem LaysOut.exists_tree (h : store.LaysOut id after) : ∃ t, store.tree? id = some t := by
  cases ht : store.tree? id with
  | some t => exact ⟨t, rfl⟩
  | none =>
    have hendless : (Build.tree id).run store = (.error .endless, store) := by
      simp [Build.tree, Attempt.run_bind, Attempt.require, ht]
    cases h with
    | length hok => simp [Build.length, Attempt.run_bind, hendless] at hok
    | multiline hid hok => simp [Build.multiline, Attempt.run_bind, hendless] at hok
    | measure hok => simp [Build.measure, Attempt.run_bind, hendless] at hok
    | render hok => simp [Build.render, Attempt.run_bind, hendless] at hok
    | write hok => simp [Store.write, ht] at hok

/-- A length that is read rests on the lengths below it. -/
theorem measured_length (hsettled : store.Settled) (ht : store.tree? id = some t) {n : Int}
    (hok : ((Build.length id).run store).1 = .ok n) :
    let after := ((Build.length id).run store).2
    after.entries = store.entries ∧ Evolves (fun _ => True) store after ∧
      t.Measured after.memo := by
  obtain ⟨hentries, hevolves, hknown⟩ := Build.known_length ht hok
  obtain ⟨rfl, hs⟩ := standsIn_of_tree? ht
  exact ⟨hentries, hevolves, Token.measured_of_knownLength (hevolves.settled hsettled)
    (hs.of_entries_eq hentries) hknown⟩

/-- A group that is not forced has its length read before it decides. -/
theorem measured_multiline (hsettled : store.Settled) (ht : store.tree? id = some t)
    {marks : Marks} {commas : Bool} {parts : List TokenId}
    (hid : store.find? id = some ⟨marks, .group commas none parts⟩) {limits : Thresholds} {b : Bool}
    (hok : ((Build.multiline limits id).run store).1 = .ok b) :
    let after := ((Build.multiline limits id).run store).2
    after.entries = store.entries ∧ Evolves (fun _ => True) store after ∧
      t.Measured after.memo := by
  intro after
  obtain ⟨hentries, hevolves, hknown⟩ := Build.known_multiline ht hok
  have hsettled' : after.Settled := hevolves.settled hsettled
  have hid' : after.find? id = some ⟨marks, .group commas none parts⟩ := by
    rwa [find?, hentries]
  obtain ⟨_, _, forced, _, hfound, hlength⟩ := hsettled'.multiline _ b (hknown.cell hid')
  obtain rfl : none = forced := by
    rw [hid', Option.some.injEq, Entry.mk.injEq, Node.group.injEq] at hfound
    exact hfound.2.2.1
  obtain ⟨n, hn⟩ := hlength rfl
  obtain ⟨rfl, hs⟩ := standsIn_of_tree? ht
  exact ⟨hentries, hevolves, Token.measured_of_knownLength hsettled' (hs.of_entries_eq hentries)
    (.group hid' hn)⟩

/-- Laying out a tree measures every group of it. -/
theorem LaysOut.measured (h : store.LaysOut id after) (hsettled : store.Settled)
    (ht : store.tree? id = some t) :
    after.entries = store.entries ∧ Evolves (fun _ => True) store after ∧
      t.Measured after.memo := by
  cases h with
  | length hok => exact measured_length hsettled ht hok
  | multiline hid hok => exact measured_multiline hsettled ht hid hok
  | @measure limits hok =>
    obtain ⟨hentries, hcells⟩ := cells_measure ht hok
    have hleads : (Build.measure limits (.token id)).Leads (Change fun _ => True) store _ :=
      Build.leads_measure trivial (.token id)
    exact ⟨hentries, hleads.1, Token.Decided.measured fun u hu hkind => (hcells u hu hkind).2⟩
  | render hok =>
    obtain ⟨hfills, hwritten⟩ := fills_render _ ht
    exact ⟨hfills.entries_eq, .of_fills trivial hfills, (hwritten _ hok).2.measured⟩
  | write hok =>
    obtain ⟨hfills, hwritten⟩ := fills_write _ ht _ _
    exact ⟨hfills.entries_eq, .of_fills trivial hfills, (hwritten hok).2.measured⟩

end Store

/-! ## Refusals -/

/-- All tokens are as they were, with their marks, their content and their cells. New ones may have
come in. -/
structure Store.Untouched (store store' : Store) : Prop where
  memo : store'.memo = store.memo
  entry : ∀ id entry, store.find? id = some entry → store'.find? id = some entry

/-- A part or an inset that is refused changes nothing. The leaf that is made of a text is there
also if it is refused, beside tokens that are as they were. -/
structure Store.RefusesCleanly (store : Store) : Prop where
  add : ∀ group part fault, ((Build.add group part).run store).1 = .error fault →
    ((Build.add group part).run store).2 = store
  addText : ∀ group text request fault,
    ((Build.addText group text request).run store).1 = .error fault →
      store.Untouched ((Build.addText group text request).run store).2
  inset : ∀ owner value fault,
    ((Build.setProperty owner Property.inset.name value).run store).1 = .error fault →
      ((Build.setProperty owner Property.inset.name value).run store).2 = store

namespace Store

variable {store store' store'' : Store}

theorem Untouched.of_eq (h : store' = store) : store.Untouched store' :=
  h ▸ ⟨rfl, fun _ _ hid => hid⟩

theorem Untouched.trans (h : store.Untouched store') (h' : store'.Untouched store'') :
    store.Untouched store'' :=
  ⟨h'.memo.trans h.memo, fun id entry hid => h'.entry id entry (h.entry id entry hid)⟩

theorem Untouched.bind {α β : Type} {x : Build α} {f : α → Build β}
    (hx : store.Untouched (x.run store).2) (hf : ∀ a (s : Store), s.Untouched ((f a).run s).2) :
    store.Untouched ((x >>= f).run store).2 := by
  rw [Attempt.run_bind]
  cases hrun : x.run store with
  | mk result s =>
    rw [hrun] at hx
    cases result with
    | error fault => exact hx
    | ok a => exact hx.trans (hf a s)

theorem untouched_push (store : Store) (entry : Entry) :
    store.Untouched { store with entries := store.entries.push entry } := by
  refine ⟨rfl, fun id found hid => ?_⟩
  have hlt : id < store.entries.size := (Array.getElem?_eq_some_iff.1 hid).1
  rw [find?_push, if_neg hlt.ne, hid]

end Store

namespace Build

open Attempt

variable {store : Store}

theorem result_attach (group part : TokenId) :
    ((attach group part).run store).1 = .ok () := by
  simp only [attach, run_bind, run_state]
  cases store.hasCommas group <;> rfl

/-- A part that is refused leaves the store as it was. -/
theorem state_add_of_error {group : TokenId} {part : Arg} {fault : Fault}
    (h : ((add group part).run store).1 = .error fault) :
    ((add group part).run store).2 = store := by
  cases part with
  | datum value => cases value <;> rfl
  | token part =>
    simp only [add, run_bind, run_state] at h ⊢
    split at h
    · rename_i hmeasured
      rw [if_pos hmeasured]
      rfl
    · simp [result_attach] at h

/-- Making a leaf touches no token that is there. -/
theorem untouched_leaf (text : Arg) (request : MarkRequest) :
    store.Untouched ((leaf text request).run store).2 := by
  unfold leaf
  split
  · have hmarks : store.Untouched ((checkMarks .leaf request).run store).2 :=
      .bind (.of_eq (state_checkInset _ _)) fun _ s => .of_eq rfl
    exact hmarks.bind fun marks s' => s'.untouched_push _
  · exact .bind (.of_eq (by cases text <;> rfl)) fun _ s => .of_eq rfl

/-- A text that is refused touches no token that is there. -/
theorem untouched_addText_of_error {group : TokenId} {text : Arg} {request : MarkRequest}
    {fault : Fault} (h : ((addText group text request).run store).1 = .error fault) :
    store.Untouched ((addText group text request).run store).2 := by
  have hleaf : store.Untouched ((leaf text request).run store).2 := untouched_leaf text request
  rw [addText, run_bind] at h ⊢
  cases hrun : (leaf text request).run store with
  | mk result s =>
    rw [hrun] at h hleaf
    cases result with
    | error fault => exact hleaf
    | ok part =>
      have hstate : ((add group (.token part)).run s).2 = s := state_add_of_error h
      show store.Untouched ((add group (.token part)).run s).2
      rwa [hstate]

/-- An inset that is refused leaves the store as it was. -/
theorem state_setProperty_inset_of_error {owner value : Arg} {fault : Fault}
    (h : ((setProperty owner Property.inset.name value).run store).1 = .error fault) :
    ((setProperty owner Property.inset.name value).run store).2 = store := by
  cases owner with
  | datum owner => rfl
  | token id =>
    have hproperty : Property.ofName? Property.inset.name = some .inset := rfl
    have hstate : ((checkInset (store.kind id) value).run store).2 = store :=
      state_checkInset _ value
    simp only [setProperty, run_bind, run_state, hproperty] at h ⊢
    cases hrun : (checkInset (store.kind id) value).run store with
    | mk result s =>
      rw [hrun] at h hstate
      cases result with
      | error fault => exact hstate
      | ok inset => simp [mark, modify] at h

end Build

theorem Store.refusesCleanly (store : Store) : store.RefusesCleanly :=
  ⟨fun _ _ _ => Build.state_add_of_error, fun _ _ _ _ => Build.untouched_addText_of_error,
    fun _ _ _ => Build.state_setProperty_inset_of_error⟩

/-! ## Sealed trees -/

/-- No group of the tree takes a part, be it a token or a leaf made of a text. -/
structure Store.Sealed (store : Store) (t : Token) : Prop where
  add : ∀ u ∈ t.walk, u.kind = .group → ∀ part,
    (Build.add u.tag.id (.token part)).run store =
      (.error (.contract (.token .group) .measured), store)
  /-- A leaf that is set at a negative depth is refused before it comes to the group. -/
  addText : ∀ u ∈ t.walk, u.kind = .group → ∀ (text : String) (breakable : Bool) (inset : Int),
    ((Build.addText u.tag.id (.datum (.text text)) { breakable, inset := .int inset }).run
      store).1 = .error (if inset < 0 then .contract (.token .leaf) (.negativeInset inset)
        else .contract (.token .group) .measured)

theorem Token.Measured.isSealed {store : Store} {t : Token} (h : t.Measured store.memo) :
    store.Sealed t := by
  have hmeasured : ∀ u ∈ t.walk, u.kind = .group → (store.memo.get u.tag.id).measured = true := by
    rw [walk_eq_preorder]
    exact h
  refine ⟨fun u hu hkind part => ?_, fun u hu hkind text breakable inset => ?_⟩
  · simp [Build.add, Attempt.run_bind, hmeasured u hu hkind]
  · by_cases hinset : inset < 0
    · simp [Build.addText, Build.leaf, Build.checkMarks, Build.checkInset, Attempt.run_bind, hinset]
    · simp [Build.addText, Build.leaf, Build.checkMarks, Build.checkInset, Build.word, Build.make,
        Build.add, Attempt.run_bind, hinset, hmeasured u hu hkind]

/-- Once a tree is laid out, none of its groups takes a part any more, then and ever after, and the
tokens of the tree stay the same with the same tokens below them. A part, a text or an inset that is
refused changes no token that is there, and a cell that is filled keeps its value. -/
theorem Session.Runs.closed_to_growth {settings : Settings} {session : Session}
    (h : Runs Step.KeepsBody { settings } session) :
    (∀ id after, session.store.LaysOut id after → ∃ t, after.tree? id = some t ∧
      ∀ later, Runs Step.KeepsBody { session with store := after } later →
        ∃ u, later.store.tree? id = some u ∧
          u.walk.map Token.sketch = t.walk.map Token.sketch ∧ later.store.Sealed u) ∧
    session.store.RefusesCleanly ∧
    ∀ later, Runs Step.KeepsBody session later → ∀ id,
      (∀ n, (session.store.memo.get id).length = some n →
        (later.store.memo.get id).length = some n) ∧
      ∀ b, (session.store.memo.get id).multiline = some b →
        (later.store.memo.get id).multiline = some b := by
  have hturns := h.turns (proper_start settings)
  have hproper := (proper_start settings).turns hturns
  have hsettled := hturns.settled Store.settled_empty
  refine ⟨fun id after hlays => ?_, session.store.refusesCleanly, fun later hlater id => ?_⟩
  · obtain ⟨t, ht⟩ := hlays.exists_tree
    obtain ⟨hentries, hevolves, hmeasured⟩ := hlays.measured hsettled ht
    have ht' : after.tree? id = some t := (Store.tree?_congr hentries id).trans ht
    refine ⟨t, ht', fun later hlater => ?_⟩
    have hretains := (hlater.turns (hproper.advances hevolves.advances)).retains
    obtain ⟨hid, hstands⟩ := Store.standsIn_of_tree? ht'
    obtain ⟨u, huid, hustands, hsketch⟩ := hmeasured.exists_tree hstands hretains
    refine ⟨u, ?_, ?_, (hmeasured.of_sketch_eq hretains hsketch).isSealed⟩
    · have htree := Store.tree?_of_standsIn hustands
      rwa [huid, hid] at htree
    · rwa [Token.walk_eq_preorder, Token.walk_eq_preorder]
  · have hretains := (hlater.turns hproper).retains
    exact ⟨fun n => hretains.length id n, fun b => hretains.multiline id b⟩

/-- A list of a leaf and itself, in brackets beside itself, with a forced group in it. -/
def Script.tangled : Script :=
  [.bind "a" (.leaf (.datum (.text "ab")) {}),
    .bind "f" (.group (.each [.named "a"]) false (some false) {}),
    .bind "g" (.group (.each [.named "a", .named "f"]) true none {}),
    .bind "b" (.bracket (.named "g") (.datum (.text "(")) (.datum (.text ")")) true false {}),
    .bind "t" (.group (.each [.named "g", .named "b"]) false none {})]

/-- Texts, brackets, commas and marks are changed, and parts are asked for. -/
def Script.meddling : Script :=
  [.set "a" Property.text.name (.datum (.text "abcdef")),
    .set "g" Property.commas.name (.datum (.bool false)),
    .block [] [.set "b" Property.ownLine.name (.datum (.bool true)), .add "f" (.named "t")],
    .set "a" Property.inset.name (.datum (.int (-1))),
    .addText "g" (.text "late") {}]

theorem Session.Runs.closed_to_growth_tangled :
    let session := ((Step.runAll Script.tangled).run {}).2
    let after := ((Build.length 4).run session.store).2
    let later := ((Step.runAll Script.meddling).run { session with store := after }).2
    Runs Step.KeepsBody {} session ∧ session.store.LaysOut 4 after ∧
      Runs Step.KeepsBody { session with store := after } later ∧
      later.store ≠ after ∧ ∃ t u, after.tree? 4 = some t ∧ later.store.tree? 4 = some u ∧
        u.walk.map Token.sketch = t.walk.map Token.sketch ∧ later.store.Sealed u := by
  intro session after later
  have hrun : Runs Step.KeepsBody {} session :=
    runs_runAll {} (by simp [Script.tangled, Step.KeepsBody])
  have hok : ((Build.length 4).run session.store).1 = .ok 10 := by decide +kernel
  have hlays : session.store.LaysOut 4 after := .length hok
  have hlater : Runs Step.KeepsBody { session with store := after } later :=
    runs_runAll _ (by simp [Script.meddling, Step.KeepsBody, Step.AllKeepBody, Property.name])
  obtain ⟨t, ht, hsealed⟩ := (closed_to_growth hrun).1 4 after hlays
  obtain ⟨u, hu⟩ := hsealed later hlater
  exact ⟨hrun, hlays, hlater, by decide +kernel, t, u, ht, hu⟩

end TokenLayout
