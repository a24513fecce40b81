import Mathlib.Data.Finset.Card
import Mathlib.Data.Finset.Range
import Mathlib.Logic.Relation
import TokenLayout.Proofs.Subtrees
import TokenLayout.Store.Basic

/-!
# Trees of a store

A tree stands in a store if each of its tokens has the entry that the tree shows. The trees that
`Store.tree?` unfolds do (`Store.standsIn_of_tree?`), and a token has at most one tree that stands
(`Token.StandsIn.eq_of_id_eq`): shared tokens are the same wherever they occur. The tokens without a
tree are those that lead to one that contains itself (`Store.exists_tree?_iff`).
-/

namespace TokenLayout

/-- The tokens right below a token with some content. -/
def Node.below : Node → List TokenId
  | group _ _ parts => parts
  | bracket _ body => [body]
  | _ => []

namespace Token

/-- The content of a token, with the tokens below it by number. -/
def node : Token → Node
  | leaf _ role text => .leaf role text
  | group _ commas forced parts => .group commas forced (parts.map fun part => part.tag.id)
  | bracket _ frame body => .bracket frame body.tag.id
  | blank _ => .blank
  | foreign _ length multiline => .foreign length multiline

theorem kind_node (t : Token) : t.node.kind = t.kind := by
  cases t <;> rfl

theorem below_node (t : Token) : t.node.below = t.children.map fun c => c.tag.id := by
  cases t <;> rfl

/-- The store has an entry for each token of the tree, and the tree shows it as it is. -/
def StandsIn (store : Store) (token : Token) : Prop :=
  token.Every fun t => store.find? t.tag.id = some ⟨t.tag.toMarks, t.node⟩

variable {store : Store}

theorem StandsIn.find? {t : Token} (h : t.StandsIn store) :
    store.find? t.tag.id = some ⟨t.tag.toMarks, t.node⟩ :=
  Every.root h

theorem StandsIn.part {tag : Tag} {commas : Bool} {forced : Option Bool} {parts : List Token}
    (h : (group tag commas forced parts).StandsIn store) : ∀ part ∈ parts, part.StandsIn store :=
  fun _ hp => Every.part h hp

theorem StandsIn.body {tag : Tag} {frame : Frame} {body : Token}
    (h : (bracket tag frame body).StandsIn store) : body.StandsIn store :=
  Every.body h

theorem StandsIn.of_entries_eq {store' : Store} {t : Token} (h : t.StandsIn store)
    (he : store'.entries = store.entries) : t.StandsIn store' := by
  simpa only [StandsIn, Store.find?, he] using h

theorem eq_of_map_id_eq {ts : List Token} (h : ∀ t ∈ ts, t.StandsIn store)
    (ih : ∀ t ∈ ts, ∀ u : Token, u.StandsIn store → t.tag.id = u.tag.id → t = u) :
    ∀ {us : List Token}, (∀ u ∈ us, u.StandsIn store) →
      (ts.map fun t => t.tag.id) = (us.map fun u => u.tag.id) → ts = us := by
  induction ts with
  | nil =>
    intro us _ hids
    exact (List.map_eq_nil_iff.1 hids.symm).symm
  | cons t ts ihts =>
    intro us hus hids
    obtain ⟨u, us, rfl, hid, hids⟩ := List.map_eq_cons_iff.1 hids.symm
    rw [ih t (by simp) u (hus u (by simp)) hid.symm,
      ihts (fun t ht => h t (by simp [ht])) (fun t ht => ih t (by simp [ht]))
        (fun u hu => hus u (by simp [hu])) hids.symm]

/-- A token has one tree that stands. -/
theorem StandsIn.eq_of_id_eq {t u : Token} (ht : t.StandsIn store) (hu : u.StandsIn store)
    (hid : t.tag.id = u.tag.id) : t = u := by
  induction t using children_induction generalizing u with
  | step t ih =>
    have hentry := ht.find?
    rw [hid, hu.find?, Option.some.injEq, Entry.mk.injEq] at hentry
    obtain ⟨hmarks, hnode⟩ := hentry
    have htag : t.tag = u.tag := by
      cases htt : t.tag
      cases hut : u.tag
      simp_all
    cases t <;> cases u <;> simp only [node, reduceCtorEq, Node.leaf.injEq, Node.group.injEq,
      Node.bracket.injEq, Node.foreign.injEq, tag] at hnode htag
    case leaf.leaf => simp_all
    case group.group tag commas forced parts tag' commas' forced' parts' =>
      obtain ⟨rfl, rfl, hids⟩ := hnode
      have hparts : parts = parts' :=
        eq_of_map_id_eq ht.part (fun p hp u hu hid => ih p hp (ht.part p hp) hu hid) hu.part
          hids.symm
      rw [htag, hparts]
    case bracket.bracket tag frame body tag' frame' body' =>
      obtain ⟨rfl, hbody⟩ := hnode
      rw [htag, ih body (List.mem_singleton_self body) ht.body hu.body hbody.symm]
    case blank.blank => simp_all
    case foreign.foreign => simp_all

theorem node_mapTag {f : Tag → Tag} (hf : ∀ tag, (f tag).id = tag.id) (t : Token) :
    (t.mapTag f).node = t.node := by
  cases t <;> simp [mapTag, mapTags_eq_map, node, tag_mapTag, hf]

end Token

namespace Store

variable {store : Store}

/-! ## Unfolding -/

theorem standsIn_of_mapM {depth : Nat}
    (ih : ∀ {id t}, store.treeWithin depth id = some t → t.tag.id = id ∧ t.StandsIn store) :
    ∀ {ids : List TokenId} {ts : List Token}, ids.mapM (store.treeWithin depth) = some ts →
      (ts.map fun t => t.tag.id) = ids ∧ ∀ t ∈ ts, t.StandsIn store
  | [], ts, h => by
    obtain rfl : [] = ts := by simpa using h
    simp
  | id :: ids, ts, h => by
    simp only [List.mapM_cons, Option.bind_eq_bind, Option.bind_eq_some_iff, Option.pure_def,
      Option.some.injEq] at h
    obtain ⟨t, ht, us, hus, rfl⟩ := h
    obtain ⟨hid, hstands⟩ := ih ht
    obtain ⟨hids, hall⟩ := standsIn_of_mapM ih hus
    refine ⟨by rw [List.map_cons, hid, hids], ?_⟩
    rintro u hu
    rcases List.mem_cons.1 hu with rfl | hu
    · exact hstands
    · exact hall u hu

theorem standsIn_of_treeWithin {depth : Nat} {id : TokenId} {t : Token}
    (h : store.treeWithin depth id = some t) : t.tag.id = id ∧ t.StandsIn store := by
  induction depth generalizing id t with
  | zero => simp [treeWithin] at h
  | succ depth ih =>
    simp only [treeWithin, Option.bind_eq_bind, Option.bind_eq_some_iff, Option.pure_def] at h
    obtain ⟨⟨marks, node⟩, hentry, h⟩ := h
    cases node with
    | leaf role text =>
      obtain rfl := Option.some.inj h
      exact ⟨rfl, Token.every_iff.2 ⟨hentry, by simp [Token.children]⟩⟩
    | group commas forced parts =>
      obtain ⟨ts, hts, h⟩ := Option.bind_eq_some_iff.1 h
      obtain rfl := Option.some.inj h
      obtain ⟨rfl, hall⟩ := standsIn_of_mapM ih hts
      exact ⟨rfl, Token.every_iff.2 ⟨hentry, hall⟩⟩
    | bracket frame body =>
      obtain ⟨t, ht, h⟩ := Option.bind_eq_some_iff.1 h
      obtain rfl := Option.some.inj h
      obtain ⟨rfl, hbody⟩ := ih ht
      refine ⟨rfl, Token.every_iff.2 ⟨hentry, ?_⟩⟩
      intro c hc
      rw [List.mem_singleton.1 hc]
      exact hbody
    | blank =>
      obtain rfl := Option.some.inj h
      exact ⟨rfl, Token.every_iff.2 ⟨hentry, by simp [Token.children]⟩⟩
    | foreign length multiline =>
      obtain rfl := Option.some.inj h
      exact ⟨rfl, Token.every_iff.2 ⟨hentry, by simp [Token.children]⟩⟩

/-- The tree that is unfolded under a token stands in the store. -/
theorem standsIn_of_tree? {id : TokenId} {t : Token} (h : store.tree? id = some t) :
    t.tag.id = id ∧ t.StandsIn store :=
  standsIn_of_treeWithin h

/-- The memo has no part in the trees. -/
theorem tree?_congr {store' : Store} (h : store'.entries = store.entries) (id : TokenId) :
    store'.tree? id = store.tree? id := by
  have hwithin : ∀ depth, store'.treeWithin depth = store.treeWithin depth := by
    intro depth
    induction depth with
    | zero => rfl
    | succ depth ih =>
      funext id
      simp only [treeWithin, find?, h, ih]
  rw [tree?, tree?, hwithin, h]

end Store

theorem Build.run_tree {store : Store} {id : TokenId} {t : Token} (ht : store.tree? id = some t) :
    (tree id).run store = (.ok t, store) := by
  simp [tree, Attempt.run_bind, ht, Attempt.require]

/-! ## Which tokens have a tree -/

namespace Store

variable {store : Store}

/-- `child` is right below `parent`. -/
def Child (store : Store) (parent child : TokenId) : Prop :=
  ∃ entry, store.find? parent = some entry ∧ child ∈ entry.node.below

/-- No token contains itself. -/
def Acyclic (store : Store) : Prop :=
  ∀ id, ¬Relation.TransGen store.Child id id

/-- The token contains one that contains itself, or does so itself. -/
def Loops (store : Store) (id : TokenId) : Prop :=
  ∃ other, Relation.ReflTransGen store.Child id other ∧ Relation.TransGen store.Child other other

/-- What is below a token is a token of the store. -/
def Closed (store : Store) : Prop :=
  ∀ parent child, store.Child parent child → child < store.entries.size

theorem exists_mapM {depth : Nat} : ∀ {ids : List TokenId},
    (∀ id ∈ ids, ∃ t, store.treeWithin depth id = some t) →
      ∃ ts, ids.mapM (store.treeWithin depth) = some ts
  | [], _ => ⟨[], rfl⟩
  | id :: ids, h => by
    obtain ⟨t, ht⟩ := h id (by simp)
    obtain ⟨ts, hts⟩ := exists_mapM fun id hid => h id (List.mem_cons_of_mem _ hid)
    exact ⟨t :: ts, by simp [ht, hts]⟩

/-- One layer of a tree, from the trees under the tokens right below. -/
theorem exists_treeWithin_succ {depth : Nat} {id : TokenId} (hid : id < store.entries.size)
    (h : ∀ child, store.Child id child → ∃ t, store.treeWithin depth child = some t) :
    ∃ t, store.treeWithin (depth + 1) id = some t := by
  obtain ⟨⟨marks, node⟩, hentry⟩ : ∃ entry, store.find? id = some entry :=
    ⟨_, Array.getElem?_eq_getElem hid⟩
  have hbelow : ∀ child ∈ node.below, ∃ t, store.treeWithin depth child = some t :=
    fun child hc => h child ⟨_, hentry, hc⟩
  cases node with
  | group commas forced parts =>
    obtain ⟨ts, hts⟩ := exists_mapM hbelow
    rw [Node.below] at hts
    exact ⟨_, by simp [treeWithin, hentry, hts]; rfl⟩
  | bracket frame body =>
    obtain ⟨t, ht⟩ := hbelow body (by simp [Node.below])
    exact ⟨_, by simp [treeWithin, hentry, ht]; rfl⟩
  | leaf role text => exact ⟨_, by simp [treeWithin, hentry]; rfl⟩
  | blank => exact ⟨_, by simp [treeWithin, hentry]; rfl⟩
  | foreign length multiline => exact ⟨_, by simp [treeWithin, hentry]; rfl⟩

/-- A token that contains none that contains itself has a tree. -/
theorem exists_tree_of_not_loops (hclosed : store.Closed) {root : TokenId}
    (hroot : ¬store.Loops root) (hid : root < store.entries.size) :
    ∃ t, store.tree? root = some t := by
  have hacyclic : ∀ id, Relation.ReflTransGen store.Child root id →
      ¬Relation.TransGen store.Child id id := fun id h hloop => hroot ⟨id, h, hloop⟩
  -- On the way down to a token no other is met twice, so the tokens above it and the layers that
  -- may still follow are at most as many as there are tokens.
  have main : ∀ (depth : Nat) (above : Finset TokenId) (id : TokenId),
      above ⊆ Finset.range store.entries.size → depth + above.card = store.entries.size →
      (∀ a ∈ above, Relation.TransGen store.Child a id) →
      Relation.ReflTransGen store.Child root id → id < store.entries.size →
      ∃ t, store.treeWithin depth id = some t := by
    intro depth
    induction depth with
    | zero =>
      intro above id hsub hcard habove hreach hid
      have hall : above = Finset.range store.entries.size :=
        Finset.eq_of_subset_of_card_le hsub (by rw [Finset.card_range]; omega)
      exact absurd (habove id (by rw [hall]; exact Finset.mem_range.2 hid)) (hacyclic id hreach)
    | succ depth ih =>
      intro above id hsub hcard habove hreach hid
      refine exists_treeWithin_succ hid fun child hchild => ?_
      have hnew : id ∉ above := fun h => hacyclic id hreach (habove id h)
      refine ih (insert id above) child ?_ ?_ ?_ (hreach.tail hchild) (hclosed id child hchild)
      · exact Finset.insert_subset (Finset.mem_range.2 hid) hsub
      · rw [Finset.card_insert_of_notMem hnew]
        omega
      · intro a ha
        rcases Finset.mem_insert.1 ha with rfl | ha
        · exact .single hchild
        · exact (habove a ha).tail hchild
  exact main store.entries.size ∅ root (Finset.empty_subset _) (by simp) (by simp) .refl hid

/-- If no token contains itself, every token has a tree. -/
theorem exists_tree_of_acyclic (hclosed : store.Closed) (hacyclic : store.Acyclic) {id : TokenId}
    (hid : id < store.entries.size) : ∃ t, store.tree? id = some t :=
  exists_tree_of_not_loops hclosed (fun ⟨other, _, hloop⟩ => hacyclic other hloop) hid

theorem mapM_treeWithin {depth : Nat} : ∀ {ts : List Token},
    (∀ t ∈ ts, store.treeWithin depth t.tag.id = some t) →
      (ts.map fun t => t.tag.id).mapM (store.treeWithin depth) = some ts
  | [], _ => rfl
  | t :: ts, h => by
    have hts := mapM_treeWithin fun u hu => h u (List.mem_cons_of_mem t hu)
    simp [h t (by simp), hts]

/-- One layer of a tree that stands, from the trees right below. -/
theorem treeWithin_succ_of_standsIn {depth : Nat} {t : Token} (hs : t.StandsIn store)
    (h : ∀ c ∈ t.children, store.treeWithin depth c.tag.id = some c) :
    store.treeWithin (depth + 1) t.tag.id = some t := by
  cases t with
  | group tag commas forced parts =>
    have hentry : store.find? tag.id =
        some ⟨tag.toMarks, .group commas forced (parts.map fun part => part.tag.id)⟩ := hs.find?
    have hparts : (parts.map fun part => part.tag.id).mapM (store.treeWithin depth) = some parts :=
      mapM_treeWithin h
    change store.treeWithin (depth + 1) tag.id = _
    simp [treeWithin, hentry, hparts]
  | bracket tag frame body =>
    have hentry : store.find? tag.id = some ⟨tag.toMarks, .bracket frame body.tag.id⟩ := hs.find?
    have hbody : store.treeWithin depth body.tag.id = some body :=
      h body (List.mem_singleton_self body)
    change store.treeWithin (depth + 1) tag.id = _
    simp [treeWithin, hentry, hbody]
  | leaf tag role text =>
    have hentry : store.find? tag.id = some ⟨tag.toMarks, .leaf role text⟩ := hs.find?
    simp [treeWithin, Token.tag, hentry]
  | blank tag =>
    have hentry : store.find? tag.id = some ⟨tag.toMarks, .blank⟩ := hs.find?
    simp [treeWithin, Token.tag, hentry]
  | foreign tag length multiline =>
    have hentry : store.find? tag.id = some ⟨tag.toMarks, .foreign length multiline⟩ := hs.find?
    simp [treeWithin, Token.tag, hentry]

/-- A tree that stands is the one that is unfolded, whatever else the store holds. -/
theorem tree?_of_standsIn {t : Token} (hs : t.StandsIn store) :
    store.tree? t.tag.id = some t := by
  -- A token above `t` has a larger tree, so it is not `t` again, and the tokens above and the
  -- layers that may still follow are at most as many as there are tokens.
  have main : ∀ (depth : Nat) (above : Finset TokenId) (t : Token),
      above ⊆ Finset.range store.entries.size → depth + above.card = store.entries.size →
      (∀ u : Token, u.StandsIn store → u.tag.id ∈ above → t.size < u.size) → t.StandsIn store →
      store.treeWithin depth t.tag.id = some t := by
    intro depth
    induction depth with
    | zero =>
      intro above t hsub hcard habove hs
      have hlt : t.tag.id < store.entries.size := (Array.getElem?_eq_some_iff.1 hs.find?).1
      have hall : above = Finset.range store.entries.size :=
        Finset.eq_of_subset_of_card_le hsub (by rw [Finset.card_range]; omega)
      exact absurd (habove t hs (by rw [hall]; exact Finset.mem_range.2 hlt)) (lt_irrefl _)
    | succ depth ih =>
      intro above t hsub hcard habove hs
      refine treeWithin_succ_of_standsIn hs fun c hc => ?_
      have hlt : t.tag.id < store.entries.size := (Array.getElem?_eq_some_iff.1 hs.find?).1
      have hnew : t.tag.id ∉ above := fun h => lt_irrefl _ (habove t hs h)
      have hsize : c.size < t.size := by
        have := Token.size_le_sizes hc
        rw [Token.size_eq t]
        omega
      refine ih (insert t.tag.id above) c ?_ ?_ ?_ ((Token.every_iff.1 hs).2 c hc)
      · exact Finset.insert_subset (Finset.mem_range.2 hlt) hsub
      · rw [Finset.card_insert_of_notMem hnew]
        omega
      · intro u hu hmem
        rcases Finset.mem_insert.1 hmem with hid | hmem
        · rw [hu.eq_of_id_eq hs hid]
          exact hsize
        · exact hsize.trans (habove u hu hmem)
  exact main store.entries.size ∅ t (Finset.empty_subset _) (by simp) (by simp) hs

end Store

end TokenLayout
