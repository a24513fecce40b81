import TokenLayout.Proofs.Shapes

/-!
# What a token spells

The flat text of a tree and whether the tree is a single element depend on its content alone, not on
its marks and numbers (`Token.flat_mapTag`). So as long as the tokens of a store keep their content,
a tree can be followed by what is left of it without marks (`Tracking.content`), whatever is
measured or marked on the way.

Marks are all that a list and a hanging part change in tokens that they are given. Both can
therefore be built from any parts (`Tracking.hands_list`, `Tracking.hands_hanging`).
-/

namespace TokenLayout

/-! ## Trees with other marks -/

namespace Token

mutual

/-- The flat text of a tree does not depend on its tags. -/
theorem flat_mapTag (f : Tag → Tag) : ∀ t : Token, (t.mapTag f).flat = t.flat
  | leaf .. => by simp [mapTag, flat]
  | group _ commas _ parts => by simp [mapTag, flat, flats_mapTags f commas true parts]
  | bracket _ _ body => by
    simp [mapTag, flat, Frame.bare, isSingle_mapTag, flat_mapTag f body]
  | blank _ => by simp [mapTag, flat]
  | foreign .. => by simp [mapTag, flat]

theorem flats_mapTags (f : Tag → Tag) (commas : Bool) :
    ∀ (first : Bool) (ts : List Token), flats commas first (mapTags f ts) = flats commas first ts
  | _, [] => rfl
  | _, t :: ts => by simp [mapTags, flats, flat_mapTag f t, flats_mapTags f commas false ts]

end

/-- Nor does it depend on them whether a tree can be written. -/
theorem Writable.mapTag {t : Token} (h : t.Writable) (f : Tag → Tag) : (t.mapTag f).Writable := by
  simpa only [Writable, every_mapTag, kind_mapTag] using h

/-- The texts of a group's parts as the group shows them on one line. -/
def joined (commas : Bool) (texts : List String) : String :=
  if commas then String.intercalate ", " texts else String.join texts

/-- Without commas, parts are put one after the other. -/
theorem flats_false (first : Bool) (ts : List Token) :
    flats false first ts = String.join (ts.map flat) := by
  induction ts generalizing first with
  | nil => rfl
  | cons t ts ih => simp [flats, ih]

/-- With commas, there is one between each part and the next. -/
theorem flats_true_cons (t : Token) (ts : List Token) :
    flats true true (t :: ts) = String.intercalate ", " (t.flat :: ts.map flat) := by
  induction ts generalizing t with
  | nil => simp [flats]
  | cons u ts ih =>
    have hrest : flats true false (u :: ts) = ", " ++ flats true true (u :: ts) := by
      simp [flats, separatorText, String.append_assoc]
    have hstep : flats true true (t :: u :: ts) = t.flat ++ flats true false (u :: ts) := by
      simp [flats]
    rw [hstep, hrest, ih, List.map_cons, String.intercalate_cons_cons, String.append_assoc]

/-- The flat text of a group is that of its parts, joined. -/
theorem flats_eq_joined (commas : Bool) (ts : List Token) :
    flats commas true ts = joined commas (ts.map flat) := by
  cases commas with
  | false => exact flats_false true ts
  | true =>
    cases ts with
    | nil => rfl
    | cons t ts => exact flats_true_cons t ts

end Token

/-! ## Trees in growing stores -/

namespace Store

variable {store store' : Store}

/-- The marks that a store has for the number in a tag. -/
def remark (store : Store) (tag : Tag) : Tag :=
  match store.find? tag.id with
  | some entry => { entry.marks with id := tag.id }
  | none => tag

theorem id_remark (store : Store) (tag : Tag) : (store.remark tag).id = tag.id := by
  unfold remark
  split <;> rfl

/-- A tree whose tokens keep their content stands in the store with the marks that it has there. -/
theorem standsIn_mapTag_remark {t : Token}
    (h : t.Every fun u => ∃ marks, store.find? u.tag.id = some ⟨marks, u.node⟩) :
    (t.mapTag store.remark).StandsIn store := by
  rw [Token.StandsIn, Token.every_mapTag]
  intro u hu
  obtain ⟨marks, hentry⟩ := h u hu
  rw [Token.tag_mapTag, id_remark, Token.node_mapTag store.id_remark, hentry, remark, hentry]

/-- In a store that has grown a tree is still there, with the marks that it has by then. -/
theorem GrowsTo.standsIn_mapTag (h : store.GrowsTo store') {t : Token} (hs : t.StandsIn store) :
    (t.mapTag store'.remark).StandsIn store' :=
  standsIn_mapTag_remark fun u hu => h.node _ _ _ (hs u hu)

end Store

namespace Tracking

open Build

/-- Following the content of trees. -/
def content : Tracking where
  seen _ := ⟨{}, 0⟩
  holds _ := True
  keeps := Store.GrowsTo
  holds_of_open _ := trivial
  keeps_of_extends := Store.Extends.growsTo
  trans := Store.GrowsTo.trans
  mono := by
    rintro store store' _ _ ⟨t, rfl, hs, hw, -, rfl⟩ h
    refine ⟨t.mapTag store'.remark, ?_, h.standsIn_mapTag hs, hw.mapTag _, fun _ _ => trivial, ?_⟩
    · rw [Token.tag_mapTag, Store.id_remark]
    · exact t.mapTag_mapTag _ _

variable {store : Store} {id : TokenId} {shape : Token}

/-- The content of a tree tells its text and whether it is a single element. -/
theorem Shows.exists_flat (h : content.Shows store id shape) :
    ∃ t : Token, store.tree? id = some t ∧ t.Writable ∧ t.flat = shape.flat ∧
      t.isSingle = shape.isSingle := by
  obtain ⟨t, rfl, hs, hw, -, rfl⟩ := h
  exact ⟨t, Store.tree?_of_standsIn hs, hw, (t.flat_mapTag _).symm, (t.isSingle_mapTag _).symm⟩

/-! ## Parts that are marked -/

/-- A part that is marked keeps its content. -/
theorem hands_hanging {arg : Arg} (h : content.Hands store (part arg) (some shape)) :
    content.Hands store (hanging arg) (some shape) := by
  intro store' hkeeps hclear
  refine (h store' hkeeps hclear).bind ?_
  rintro _ store₁ - ⟨h₁, _, rfl, ⟨hshows⟩⟩
  refine (grows_mark _ _).bind fun _ store₂ h₂ _ => ?_
  exact grows_pure ⟨h₁.trans h₂, some _, rfl, .some (hshows.mono h₂)⟩

/-- Parts are handed over one after the other, and none changes the content of another. -/
theorem grows_parts : ∀ {args : List Arg} {shapes : List (Option Token)} {store : Store},
    store.ClearAhead →
    List.Forall₂ (fun arg shape => content.Hands store (part arg) shape) args shapes →
    Grows store (parts args) fun store' args' =>
      ∃ ids, args' = ids.map partArg ∧ List.Forall₂ (content.ShowsPart store') ids shapes
  | _, _, _, _, .nil => grows_pure ⟨[], rfl, .nil⟩
  | _, _, store, hclear, .cons hfirst hrest => by
    refine (hfirst store (.refl store) hclear).bind ?_
    rintro _ store₁ h₁ ⟨-, first, rfl, hfirst⟩
    refine (grows_parts (hclear.mono h₁) (hrest.imp fun _ _ h => h.mono h₁)).bind ?_
    rintro _ store₂ h₂ ⟨rest, rfl, hrest⟩
    exact grows_pure ⟨first :: rest, rfl, .cons (hfirst.mono h₂) hrest⟩

/-- The content of a list. -/
def listTree (forced : Option Bool) (items : List (Option Token)) : Token :=
  .group ⟨{}, 0⟩ true forced items.reduceOption

/-- Any parts can be the items of a list, and those that are missing are left out. -/
theorem hands_list {args : List Arg} {shapes : List (Option Token)}
    (h : List.Forall₂ (fun arg shape => content.Hands store (part arg) shape) args shapes)
    (inset : Nat) (forced : Option Bool) :
    content.Hands store (list (.each args) inset forced) (some (listTree forced shapes)) := by
  intro store' hkeeps hclear
  have hlist : list (.each args) inset forced = (do
      let args ← parts args
      return .token (← groupOf args true forced { inset })) := rfl
  rw [hlist]
  refine (grows_parts hclear (h.imp fun _ _ hpart => hpart.mono hkeeps)).bind ?_
  rintro _ store₁ h₁ ⟨ids, rfl, hparts⟩
  have hshows := ShowsPart.reduceOption hparts
  have hclear₁ := hclear.mono h₁
  refine (grows_groupOf hclear₁ (ne_size_of_shows hshows) true forced { inset }).bind ?_
  rintro _ store₂ h₂ ⟨rfl, hdone⟩
  refine grows_pure ⟨h₁.trans h₂, some _, rfl, .some (shows_group hdone.group ?_ ?_)⟩
  · rw [hdone.memo]
    exact hclear₁ _ le_rfl
  · exact hshows.imp fun _ _ hpart => hpart.mono h₂

end Tracking

end TokenLayout
