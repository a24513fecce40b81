import Mathlib.Data.List.ReduceOption
import TokenLayout.Proofs.Evolution
import TokenLayout.Store.Expression

/-!
# Stores that grow

Building tokens lets a store grow. New tokens come in, and no token that is there gets other
content. Its marks may change (`Store.GrowsTo`), or they stay as well (`Store.Extends`).
`Build.Grows` follows a piece of building through its steps and says that it comes to an end without
a fault.

A new token has the entry that it is made with, and nothing else changes (`Build.grows_make`). Only
a group with commas does more: it marks the parts that it is given (`Build.grows_groupOf`).
-/

namespace TokenLayout

namespace Store

/-- The store becomes larger. Its tokens keep their content, and nothing is measured. -/
structure GrowsTo (store store' : Store) : Prop where
  size : store.entries.size ≤ store'.entries.size
  memo : store'.memo = store.memo
  node : ∀ id marks node, store.find? id = some ⟨marks, node⟩ →
    ∃ marks', store'.find? id = some ⟨marks', node⟩

/-- The store becomes larger. Its tokens keep content and marks, and nothing is measured. -/
structure Extends (store store' : Store) : Prop where
  size : store.entries.size ≤ store'.entries.size
  memo : store'.memo = store.memo
  entry : ∀ id entry, store.find? id = some entry → store'.find? id = some entry

/-- No token that is still to come is measured. -/
def ClearAhead (store : Store) : Prop :=
  ∀ id, store.entries.size ≤ id → (store.memo.get id).measured = false

variable {store store' store'' : Store}

theorem GrowsTo.refl (store : Store) : store.GrowsTo store :=
  ⟨le_rfl, rfl, fun _ marks _ h => ⟨marks, h⟩⟩

theorem GrowsTo.trans (h : store.GrowsTo store') (h' : store'.GrowsTo store'') :
    store.GrowsTo store'' := by
  refine ⟨h.size.trans h'.size, h'.memo.trans h.memo, fun id marks node hid => ?_⟩
  obtain ⟨marks', hid'⟩ := h.node id marks node hid
  exact h'.node id marks' node hid'

theorem Extends.refl (store : Store) : store.Extends store :=
  ⟨le_rfl, rfl, fun _ _ hid => hid⟩

theorem Extends.trans (h : store.Extends store') (h' : store'.Extends store'') :
    store.Extends store'' :=
  ⟨h.size.trans h'.size, h'.memo.trans h.memo, fun id entry hid =>
    h'.entry id entry (h.entry id entry hid)⟩

/-- Tokens that keep their entries keep their content. -/
theorem Extends.growsTo (h : store.Extends store') : store.GrowsTo store' :=
  ⟨h.size, h.memo, fun id marks node hid => ⟨marks, h.entry id ⟨marks, node⟩ hid⟩⟩

/-- Tokens that come in are not measured, so the numbers beyond them are still clear. -/
theorem ClearAhead.mono (hclear : store.ClearAhead) (h : store.GrowsTo store') :
    store'.ClearAhead := by
  intro id hid
  rw [h.memo]
  exact hclear id (h.size.trans hid)

/-- If measured tokens are tokens that are there, none that is to come is measured. -/
theorem clearAhead_of_find?
    (hlength : ∀ id n, (store.memo.get id).length = some n → ∃ entry, store.find? id = some entry)
    (hmultiline : ∀ id b, (store.memo.get id).multiline = some b →
      ∃ entry, store.find? id = some entry) : store.ClearAhead := by
  intro id hid
  have hnone : store.find? id = none := store.find?_eq_none_of_size_le hid
  have hlength : (store.memo.get id).length = none := by
    refine Option.eq_none_iff_forall_ne_some.2 fun n hn => ?_
    obtain ⟨entry, hentry⟩ := hlength id n hn
    simp [hnone] at hentry
  have hmultiline : (store.memo.get id).multiline = none := by
    refine Option.eq_none_iff_forall_ne_some.2 fun b hb => ?_
    obtain ⟨entry, hentry⟩ := hmultiline id b hb
    simp [hnone] at hentry
  rw [Cells.measured, hlength, hmultiline]
  rfl

/-- The number of the next token is not in use. -/
theorem ne_size_of_find? {id : TokenId} {entry : Entry} (h : store.find? id = some entry) :
    id ≠ store.entries.size := by
  have hlt : id < store.entries.size := (Array.getElem?_eq_some_iff.1 h).1
  exact hlt.ne

/-- A token that comes in gets a number of its own. -/
theorem extends_push (store : Store) (entry : Entry) :
    store.Extends { store with entries := store.entries.push entry } := by
  refine ⟨by simp, rfl, fun id old hid => ?_⟩
  rw [find?_push, if_neg (ne_size_of_find? hid), hid]

/-- A mark that changes leaves the content. -/
theorem growsTo_mark (store : Store) (id : TokenId) (f : Marks → Marks) :
    store.GrowsTo (store.modify id fun entry => { entry with marks := f entry.marks }) := by
  refine ⟨by simp [modify], rfl, fun other marks node hother => ?_⟩
  rw [find?_modify]
  split_ifs
  · exact ⟨f marks, by rw [hother]; rfl⟩
  · exact ⟨marks, hother⟩

end Store

/-! ## Building -/

namespace Build

variable {α β : Type} {store : Store}

/-- The work comes to an end without a fault, lets the store grow, and `post` holds of its value in
the store that it leaves. -/
def Grows (store : Store) (x : Build α) (post : Store → α → Prop) : Prop :=
  ∃ a store', x.run store = (.ok a, store') ∧ store.GrowsTo store' ∧ post store' a

variable {x : Build α} {post : Store → α → Prop} {post' : Store → β → Prop}

theorem grows_pure {a : α} (h : post store a) : Grows store (pure a) post :=
  ⟨a, store, rfl, .refl store, h⟩

/-- Work that goes on with a value lets the store grow twice. -/
theorem Grows.bind {f : α → Build β} (hx : Grows store x post)
    (hf : ∀ a store', store.GrowsTo store' → post store' a → Grows store' (f a) post') :
    Grows store (x >>= f) post' := by
  obtain ⟨a, store₁, hrun, hgrows, hpost⟩ := hx
  obtain ⟨b, store₂, hrun', hgrows', hpost'⟩ := hf a store₁ hgrows hpost
  refine ⟨b, store₂, ?_, hgrows.trans hgrows', hpost'⟩
  rw [Attempt.run_bind, hrun]
  exact hrun'

theorem Grows.imp {post₁ : Store → α → Prop} (hx : Grows store x post)
    (h : ∀ a store', store.GrowsTo store' → post store' a → post₁ store' a) :
    Grows store x post₁ := by
  obtain ⟨a, store', hrun, hgrows, hpost⟩ := hx
  exact ⟨a, store', hrun, hgrows, h a store' hgrows hpost⟩

/-- A token that is made is new and has the entry that is asked for. -/
theorem grows_make (hclear : store.ClearAhead) (marks : Marks) (node : Node) :
    Grows store (make marks node) fun store' id => store.Extends store' ∧
      store.entries.size ≤ id ∧ store'.find? id = some ⟨marks, node⟩ ∧
        (store'.memo.get id).measured = false := by
  have hext := store.extends_push ⟨marks, node⟩
  refine ⟨store.entries.size, _, rfl, hext.growsTo, hext, le_rfl, ?_, hclear _ le_rfl⟩
  simp [Store.find?]

theorem grows_mark (id : TokenId) (f : Marks → Marks) :
    Grows store (mark id f) fun _ _ => True :=
  ⟨(), _, rfl, store.growsTo_mark id f, trivial⟩

end Build

/-! ## Groups -/

/-- The entry of a token that became an item of a list. -/
def Entry.asItem (entry : Entry) : Entry :=
  { entry with marks := { entry.marks with breakable := true } }

@[simp] theorem Entry.asItem_asItem (entry : Entry) : entry.asItem.asItem = entry.asItem :=
  rfl

namespace Build

variable {store : Store}

/-- What a group is handed for a part that may be missing. -/
def partArg : Option TokenId → Arg
  | some id => .token id
  | none => .datum .null

/-- Of parts that are all there, none is left out. -/
theorem reduceOption_map_some {α : Type} (xs : List α) : (xs.map some).reduceOption = xs := by
  simp [List.reduceOption]

/-- The group that was made on top of `base` has the parts `done`, and `base` is as it was, but that
the parts of a group with commas are items. -/
structure Gathered (base : Store) (marks : Marks) (commas : Bool) (forced : Option Bool)
    (done : List TokenId) (store : Store) : Prop where
  size : base.entries.size ≤ store.entries.size
  memo : store.memo = base.memo
  group : store.find? base.entries.size = some ⟨marks, .group commas forced done⟩
  entry : ∀ id entry, base.find? id = some entry →
    store.find? id = some (if commas = true ∧ id ∈ done then entry.asItem else entry)

variable {base : Store} {marks : Marks} {commas : Bool} {forced : Option Bool}
  {done : List TokenId}

/-- All that happens to a token is that it becomes an item. -/
theorem Gathered.growsTo (h : Gathered base marks commas forced done store) :
    base.GrowsTo store := by
  refine ⟨h.size, h.memo, fun id marks node hid => ?_⟩
  rw [h.entry id _ hid]
  split
  · exact ⟨_, rfl⟩
  · exact ⟨marks, rfl⟩

/-- Tokens that are no items of the group are untouched. -/
theorem Gathered.extends (h : Gathered base marks commas forced done store)
    {old : Store} (hold : old.Extends base)
    (hnew : commas = true → ∀ id ∈ done, old.entries.size ≤ id) : old.Extends store := by
  refine ⟨hold.size.trans h.size, h.memo.trans hold.memo, fun id entry hid => ?_⟩
  have hlt : id < old.entries.size := (Array.getElem?_eq_some_iff.1 hid).1
  rw [h.entry id entry (hold.entry id entry hid), if_neg]
  rintro ⟨hcommas, hmem⟩
  exact absurd (hnew hcommas id hmem) (Nat.not_le.2 hlt)

/-- A token that is there, not the group itself, is put into the group. -/
theorem Gathered.exists_attach (h : Gathered base marks commas forced done store)
    {part : TokenId} (hpart : part ≠ base.entries.size) :
    ∃ store', (attach base.entries.size part).run store = (.ok (), store') ∧
      Gathered base marks commas forced (done ++ [part]) store' := by
  have hcommas : store.hasCommas base.entries.size = commas := by
    rw [Store.hasCommas, h.group]
  obtain ⟨marked, hrun, hmemo, hsize, hmarked⟩ : ∃ marked : Store,
      (attach base.entries.size part).run store = (.ok (), marked.modify base.entries.size
        fun entry => { entry with node := entry.node.append part }) ∧
      marked.memo = store.memo ∧ marked.entries.size = store.entries.size ∧
      ∀ id, marked.find? id = (store.find? id).map fun entry =>
        if commas = true ∧ id = part then entry.asItem else entry := by
    cases commas with
    | false =>
      refine ⟨store, ?_, rfl, rfl, by simp⟩
      simp [attach, Attempt.run_bind, hcommas, Attempt.when, modify]
    | true =>
      have hmark : mark part (fun marks => { marks with breakable := true }) =
          modify part Entry.asItem := rfl
      refine ⟨store.modify part Entry.asItem, ?_, rfl, by simp [Store.modify], fun id => ?_⟩
      · simp [attach, Attempt.run_bind, hcommas, Attempt.when, hmark, modify]
      · rw [Store.find?_modify]
        by_cases hid : id = part
        · simp [hid]
        · simp [hid, Ne.symm hid]
  refine ⟨_, hrun, ⟨?_, hmemo.trans h.memo, ?_, fun id entry hid => ?_⟩⟩
  · simpa [Store.modify, hsize] using h.size
  · rw [Store.find?_modify, if_pos rfl, hmarked, h.group, Option.map_some, Option.map_some,
      if_neg fun hitem => hpart hitem.2.symm]
    rfl
  · rw [Store.find?_modify, if_neg (Store.ne_size_of_find? hid).symm, hmarked, h.entry id entry hid,
      Option.map_some]
    by_cases heq : id = part
    · subst heq
      cases commas <;> by_cases hmem : id ∈ done <;> simp [hmem]
    · simp [heq]

/-- A part that is missing is left out. -/
theorem Gathered.exists_add (hclear : base.ClearAhead)
    (h : Gathered base marks commas forced done store) {part : Option TokenId}
    (hpart : ∀ id ∈ part, id ≠ base.entries.size) :
    ∃ store', (add base.entries.size (partArg part)).run store = (.ok (), store') ∧
      Gathered base marks commas forced (done ++ part.toList) store' := by
  cases part with
  | none => exact ⟨store, rfl, by simpa using h⟩
  | some id =>
    have hopen : (store.memo.get base.entries.size).measured = false := by
      rw [h.memo]
      exact hclear _ le_rfl
    obtain ⟨store', hrun, hdone⟩ := h.exists_attach (hpart id rfl)
    refine ⟨store', ?_, hdone⟩
    simpa [partArg, add, Attempt.run_bind, hopen] using hrun

/-- Parts that are all there, or missing, are put into the group in order. -/
theorem Gathered.exists_addAll (hclear : base.ClearAhead) :
    ∀ (parts : List (Option TokenId)) {done : List TokenId} {store : Store},
      (∀ id ∈ parts.reduceOption, id ≠ base.entries.size) →
      Gathered base marks commas forced done store →
      ∃ store', (addAll base.entries.size (parts.map partArg)).run store = (.ok (), store') ∧
        Gathered base marks commas forced (done ++ parts.reduceOption) store'
  | [], _, store, _, h => ⟨store, rfl, by simpa using h⟩
  | part :: parts, done, store, hparts, h => by
    have hfirst : ∀ id ∈ part, id ≠ base.entries.size := fun id hid =>
      hparts id (by rw [Option.mem_def.1 hid, List.reduceOption_cons_of_some]; simp)
    have hrest : ∀ id ∈ parts.reduceOption, id ≠ base.entries.size := fun id hid =>
      hparts id (by cases part <;> simp [List.reduceOption_cons_of_some, hid])
    obtain ⟨store₁, hrun, hdone⟩ := h.exists_add hclear hfirst
    obtain ⟨store₂, hrun', hdone'⟩ := exists_addAll hclear parts hrest hdone
    refine ⟨store₂, ?_, ?_⟩
    · rw [List.map_cons, addAll, Attempt.run_bind, hrun]
      exact hrun'
    · cases part <;> simpa using hdone'

/-- A group of tokens that are there. -/
theorem grows_groupOf (hclear : store.ClearAhead) {parts : List (Option TokenId)}
    (hparts : ∀ id ∈ parts.reduceOption, id ≠ store.entries.size) (commas : Bool)
    (forced : Option Bool) (marks : Marks) :
    Grows store (groupOf (parts.map partArg) commas forced marks) fun store' id =>
      id = store.entries.size ∧ Gathered store marks commas forced parts.reduceOption store' := by
  have hmade : Gathered store marks commas forced []
      { store with entries := store.entries.push ⟨marks, .group commas forced []⟩ } := by
    refine ⟨by simp, rfl, by simp [Store.find?], fun id entry hid => ?_⟩
    rw [(store.extends_push _).entry id entry hid]
    simp
  obtain ⟨store', hrun, hdone⟩ := hmade.exists_addAll hclear parts hparts
  refine ⟨store.entries.size, store', ?_, hdone.growsTo, rfl, hdone⟩
  rw [groupOf, Attempt.run_bind]
  simp [make, Attempt.run_bind, hrun]

end Build

end TokenLayout
