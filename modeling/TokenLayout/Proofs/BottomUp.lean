import TokenLayout.Proofs.Construction
import TokenLayout.Proofs.Decided

/-!
# Tokens are walked from the top and measured from the bottom

A walk goes in rounds over the tokens of a store (`Store.round`): it lists the token on top of a
stack and puts those right below it in its place. If no token contains itself the rounds come to an
end, and what they list is the tree under the token, every token before those below it and child by
child (`Store.rounds_of_standsIn`).

Measuring goes through the walk from its end. A token in a walk is followed by all those below it
(`Token.mem_of_reverse_walk_eq`), so whenever a token is asked for a measurement the groups below it
have both of theirs. That holds of what the tokens of the walk are asked, and passes on to what they
ask of others in turn (`Query.Raises.ready`).
-/

namespace TokenLayout

/-! ## Rounds -/

/-- How far a walk has come: the tokens still to visit, the next one last, and those listed. -/
structure Visit where
  stack : List TokenId
  listed : List TokenId
deriving DecidableEq, Repr

namespace Store

/-- One round of a walk. The last token of the stack is listed, and those right below it are put in
its place in reverse. On an empty stack there is none. -/
def round (store : Store) (visit : Visit) : Option Visit := do
  let id ← visit.stack.getLast?
  let entry ← store.find? id
  return ⟨visit.stack.dropLast ++ entry.node.below.reverse, visit.listed ++ [id]⟩

/-- A walk goes on round by round. -/
abbrev Rounds (store : Store) : Visit → Visit → Prop :=
  Relation.ReflTransGen fun visit visit' => store.round visit = some visit'

/-- The tokens of the tree under a token, as often as they occur in it. -/
def listing (store : Store) (id : TokenId) : List TokenId :=
  ((store.tree? id).map fun t => t.walk.map fun u => u.tag.id).getD []

end Store

namespace Token

theorem walk_eq (t : Token) : t.walk = t :: t.children.flatMap walk := by
  have hflat (ts : List Token) : preorders ts = ts.flatMap walk := by
    induction ts with
    | nil => rfl
    | cons u ts ih => rw [preorders, ih, List.flatMap_cons, walk_eq_preorder]
  rw [walk_eq_preorder, preorder_eq, hflat]

end Token

namespace Store

variable {store : Store}

theorem round_concat {stack listed : List TokenId} {id : TokenId} {entry : Entry}
    (h : store.find? id = some entry) : store.round ⟨stack ++ [id], listed⟩ =
      some ⟨stack ++ entry.node.below.reverse, listed ++ [id]⟩ := by
  simp [round, h]

/-- The trees on top of the stack are listed one after the other, given that each of them is. -/
theorem rounds_of_forall {ts : List Token}
    (h : ∀ t ∈ ts, ∀ stack listed, store.Rounds ⟨stack ++ [t.tag.id], listed⟩
      ⟨stack, listed ++ t.walk.map fun u => u.tag.id⟩) (stack listed : List TokenId) :
    store.Rounds ⟨stack ++ (ts.map fun t => t.tag.id).reverse, listed⟩
      ⟨stack, listed ++ (ts.flatMap Token.walk).map fun u => u.tag.id⟩ := by
  induction ts generalizing listed with
  | nil =>
    simp only [List.map_nil, List.reverse_nil, List.append_nil, List.flatMap_nil]
    exact .refl
  | cons t ts ih =>
    have hfirst := h t (by simp) (stack ++ (ts.map fun t => t.tag.id).reverse) listed
    have hrest := ih (fun u hu => h u (by simp [hu])) (listed ++ t.walk.map fun u => u.tag.id)
    simp only [List.map_cons, List.reverse_cons, List.flatMap_cons, List.map_append,
      ← List.append_assoc] at hfirst hrest ⊢
    exact hfirst.trans hrest

/-- From a tree that stands on top of the stack the rounds come back to the rest of the stack, with
the tokens of the tree listed. -/
theorem rounds_of_standsIn {t : Token} (hs : t.StandsIn store) (stack listed : List TokenId) :
    store.Rounds ⟨stack ++ [t.tag.id], listed⟩
      ⟨stack, listed ++ t.walk.map fun u => u.tag.id⟩ := by
  induction t using Token.children_induction generalizing stack listed with
  | step t ih =>
    have hround : store.round ⟨stack ++ [t.tag.id], listed⟩ = _ := round_concat hs.find?
    have hbelow := rounds_of_forall (fun c hc => ih c hc ((Token.every_iff.1 hs).2 c hc)) stack
      (listed ++ [t.tag.id])
    have hlisted : listed ++ t.walk.map (fun u => u.tag.id) = listed ++ [t.tag.id] ++
        (t.children.flatMap Token.walk).map fun u => u.tag.id := by
      rw [Token.walk_eq, List.map_cons, List.append_cons]
    rw [Token.below_node] at hround
    rw [hlisted]
    exact .head hround hbelow

/-- The listing of a token is the token and the listings of those right below it, one for each time
that they stand there. -/
theorem listing_eq (hclosed : store.Closed) (hacyclic : store.Acyclic) {id : TokenId}
    {entry : Entry} (hid : store.find? id = some entry) :
    store.listing id = id :: entry.node.below.flatMap store.listing := by
  have hlisting {u : Token} (hu : u.StandsIn store) :
      store.listing u.tag.id = u.walk.map fun v => v.tag.id := by
    rw [listing, tree?_of_standsIn hu, Option.map_some, Option.getD_some]
  obtain ⟨t, ht⟩ := exists_tree_of_acyclic hclosed hacyclic (Array.getElem?_eq_some_iff.1 hid).1
  obtain ⟨rfl, hs⟩ := standsIn_of_tree? ht
  obtain rfl : entry = ⟨t.tag.toMarks, t.node⟩ := Option.some.inj (hid.symm.trans hs.find?)
  have hbelow : t.children.flatMap (fun c => store.listing c.tag.id) =
      t.children.flatMap fun c => c.walk.map fun v => v.tag.id :=
    List.flatMap_congr fun c hc => hlisting ((Token.every_iff.1 hs).2 c hc)
  rw [hlisting hs, Token.walk_eq, List.map_cons, List.map_flatMap, Token.below_node,
    List.flatMap_map, hbelow]

end Store

/-! ## Below comes first -/

/-- Both cells are filled. -/
def Cells.full (cells : Cells) : Bool :=
  cells.length.isSome && cells.multiline.isSome

namespace Token

/-- Both cells of every group of the tree are filled. -/
def Full (memo : Memo) (token : Token) : Prop :=
  token.Every fun t => t.kind = .group → (memo.get t.tag.id).full = true

/-- Both cells of every group below the token are filled. -/
def Ready (memo : Memo) (token : Token) : Prop :=
  ∀ child ∈ token.children, child.Full memo

variable {limits : Thresholds} {store store' : Store} {memo : Memo}

theorem Full.ready {t : Token} (h : t.Full memo) : t.Ready memo :=
  (every_iff.1 h).2

theorem Full.mono {t : Token} (h : t.Full store.memo) (hk : store.Keeps store') :
    t.Full store'.memo := by
  intro u hu hkind
  obtain ⟨hlength, hmultiline⟩ := Bool.and_eq_true_iff.1 (h u hu hkind)
  obtain ⟨n, hn⟩ := Option.isSome_iff_exists.1 hlength
  obtain ⟨b, hb⟩ := Option.isSome_iff_exists.1 hmultiline
  simp [Cells.full, hk.length _ n hn, hk.multiline _ b hb]

theorem Ready.mono {t : Token} (h : t.Ready store.memo) (hk : store.Keeps store') :
    t.Ready store'.memo :=
  fun c hc => (h c hc).mono hk

/-- In what is listed from a stack, a token is followed by those below it. -/
theorem exists_of_walkStack_eq {stack before after : List Token} {u : Token}
    (h : walkStack stack = before ++ u :: after) :
    ∃ rest, after = preorders u.children ++ rest := by
  induction stack using walkStack.induct generalizing before with
  | case1 => simp [walkStack] at h
  | case2 token stack ih =>
    rw [walkStack] at h
    cases before with
    | nil =>
      obtain ⟨rfl, rfl⟩ := List.cons.inj h
      exact ⟨preorders stack, by rw [walkStack_eq_preorders, preorders_append]⟩
    | cons v before => exact ih (List.cons.inj h).2

/-- In a walk from its end, those below a token come before it. -/
theorem mem_of_reverse_walk_eq {t u : Token} {before after : List Token}
    (h : t.walk.reverse = before ++ u :: after) : ∀ v ∈ preorders u.children, v ∈ before := by
  have hwalk : walkStack [t] = after.reverse ++ u :: before.reverse := by
    rw [← walk, ← List.reverse_reverse t.walk, h]
    simp
  obtain ⟨rest, hrest⟩ := exists_of_walkStack_eq hwalk
  intro v hv
  rw [← List.mem_reverse, hrest]
  exact List.mem_append_left rest hv

/-- A token is ready once all that comes before it in a walk from its end is measured. -/
theorem ready_of_reverse_walk_eq {t u : Token} {before after : List Token}
    (h : t.walk.reverse = before ++ u :: after)
    (hbefore : ∀ v ∈ before, v.kind = .group → (memo.get v.tag.id).full = true) : u.Ready memo := by
  intro c hc v hv
  exact hbefore v (mem_of_reverse_walk_eq h v (mem_preorders.2 ⟨c, hc, hv⟩))

end Token

/-! ## What tokens are asked -/

/-- The two things that are asked of a token. -/
inductive Measurement where
  | length
  | multiline
deriving DecidableEq, Repr

/-- A token is asked for a measurement, with the cells as they are in `memo`. -/
structure Query where
  token : Token
  measurement : Measurement
  memo : Memo

namespace Query

open Token

/-- The memo once a query is answered, or has failed. -/
def memoAfter (limits : Thresholds) : Query → Memo
  | ⟨token, .length, memo⟩ => (token.readLength.run memo).2
  | ⟨token, .multiline, memo⟩ => ((token.readMultiline limits).run memo).2

/-- For the answer to a query another one is put. -/
inductive Raises (limits : Thresholds) : Query → Query → Prop
  /-- A bracket asks its body for the same. -/
  | body {tag : Tag} {frame : Frame} {body : Token} {measurement : Measurement} {memo : Memo} :
      Raises limits ⟨bracket tag frame body, measurement, memo⟩ ⟨body, measurement, memo⟩
  /-- A group without its length asks its parts for theirs, one after the other. -/
  | partLength {tag : Tag} {commas : Bool} {forced : Option Bool} {before after : List Token}
      {part : Token} {memo memo' : Memo} {n : Int} (hcell : (memo.get tag.id).length = none)
      (hbefore : (readLengths before).run memo = (some n, memo')) :
      Raises limits ⟨group tag commas forced (before ++ part :: after), .length, memo⟩
        ⟨part, .length, memo'⟩
  /-- A group without its decision, which is not forced, needs its own length. -/
  | ownLength {tag : Tag} {commas : Bool} {parts : List Token} {memo : Memo}
      (hcell : (memo.get tag.id).multiline = none) :
      Raises limits ⟨group tag commas none parts, .multiline, memo⟩
        ⟨group tag commas none parts, .length, memo⟩
  /-- If it is not too big, it then asks its parts for their decisions, up to the first that takes
  several lines. -/
  | partMultiline {tag : Tag} {commas : Bool} {before after : List Token} {part : Token}
      {memo memo' memo'' : Memo} {n : Int} (hcell : (memo.get tag.id).multiline = none)
      (hlength : (group tag commas none (before ++ part :: after)).readLength.run memo =
        (some n, memo'))
      (hfits : limits.exceeded n (before ++ part :: after).length = false)
      (hbefore : (readAnyMultiline limits before).run memo' = (some false, memo'')) :
      Raises limits ⟨group tag commas none (before ++ part :: after), .multiline, memo⟩
        ⟨part, .multiline, memo''⟩

end Query

namespace Token

/-- What is asked while the tree under `root` is measured, starting from `memo`. -/
inductive Asked (limits : Thresholds) (root : Token) (memo : Memo) : Query → Prop
  /-- Each token of the walk, the last one first, is asked for its length. -/
  | length {before after : List Token} {token : Token} {memo' : Memo}
      (hwalk : root.walk.reverse = before ++ token :: after)
      (hbefore : (readAll limits before).run memo = (some (), memo')) :
      Asked limits root memo ⟨token, .length, memo'⟩
  /-- Then it is asked for its decision. -/
  | multiline {before after : List Token} {token : Token} {memo' memo'' : Memo} {n : Int}
      (hwalk : root.walk.reverse = before ++ token :: after)
      (hbefore : (readAll limits before).run memo = (some (), memo'))
      (hlength : token.readLength.run memo' = (some n, memo'')) :
      Asked limits root memo ⟨token, .multiline, memo''⟩
  | raised {query query' : Query} (h : Asked limits root memo query)
      (hraises : query.Raises limits query') : Asked limits root memo query'

end Token

/-- Whatever a reading comes to, the cells that were filled stay as they were. -/
theorem Reading.Leads.keeps {α : Type} {limits : Thresholds} {store : Store} {x : Reading α}
    {value : Option α} {post : Store → α → Prop} (hx : x.Leads limits store value post)
    {found : Option α} {memo : Memo} (hrun : x.run store.memo = (found, memo)) :
    store.Keeps { store with memo } := by
  obtain ⟨memo', hrun', hfills, -⟩ := hx
  obtain ⟨-, rfl⟩ := Prod.mk.inj (hrun.symm.trans hrun')
  exact hfills.keeps

section Ready

variable {limits : Thresholds} {store : Store}

/-- What is asked for the sake of a ready token is asked of a ready one. -/
theorem Query.Raises.ready {query query' : Query} (h : query.Raises limits query')
    (hs : query.token.StandsIn store) (hready : query.token.Ready query.memo) :
    query'.token.StandsIn store ∧ query'.token.Ready query'.memo := by
  have hstands {t : Token} (ht : t.StandsIn store) (memo : Memo) :
      t.StandsIn { store with memo } := ht.of_entries_eq rfl
  cases h with
  | body => exact ⟨hs.body, (hready _ (List.mem_singleton_self _)).ready⟩
  | @partLength _ _ _ before after part memo _ _ _ hbefore =>
    have hpart : part ∈ before ++ part :: after := by simp
    have hleads := Token.leads_readLengths limits before fun u hu =>
      hstands (hs.part u (List.mem_append_left _ hu)) memo
    have hpartReady : part.Ready ({ store with memo } : Store).memo := (hready part hpart).ready
    exact ⟨hs.part part hpart, hpartReady.mono (hleads.keeps hbefore)⟩
  | ownLength => exact ⟨hs, hready⟩
  | @partMultiline tag commas before after part memo memo' _ _ _ hlength _ hbefore =>
    have hpart : part ∈ before ++ part :: after := by simp
    have hlengths := Token.leads_readLength limits _ (hstands hs memo)
    have hleads := Token.leads_readAnyMultiline limits before fun u hu =>
      hstands (hs.part u (List.mem_append_left _ hu)) memo'
    have hpartReady : part.Ready ({ store with memo } : Store).memo := (hready part hpart).ready
    exact ⟨hs.part part hpart,
      (hpartReady.mono (hlengths.keeps hlength)).mono (hleads.keeps hbefore)⟩

/-- Whenever a token is asked for something while a tree is measured, it is ready. -/
theorem Token.Asked.ready {root : Token} {query : Query} (h : root.Asked limits store.memo query)
    (hs : root.StandsIn store) : query.token.StandsIn store ∧ query.token.Ready query.memo := by
  have hwalk {token : Token} (ht : token ∈ root.walk.reverse) : token.StandsIn store :=
    Token.Every.below hs (by rwa [List.mem_reverse, Token.walk_eq_preorder] at ht)
  -- What comes before a token in the walk from its end is measured, so all below the token is.
  have hvisited {before after : List Token} {token : Token} {memo : Memo}
      (hsplit : root.walk.reverse = before ++ token :: after)
      (hbefore : (Token.readAll limits before).run store.memo = (some (), memo)) :
      token.StandsIn store ∧ token.Ready memo := by
    have hmem : ∀ v ∈ before, v.StandsIn store := fun v hv => hwalk (by simp [hsplit, hv])
    refine ⟨hwalk (by simp [hsplit]), Token.ready_of_reverse_walk_eq hsplit fun v hv hkind => ?_⟩
    exact Bool.and_eq_true_iff.2 (Store.cells_readAll hmem hbefore v hv hkind)
  induction h with
  | length hsplit hbefore => exact hvisited hsplit hbefore
  | @multiline _ _ token memo' _ _ hsplit hbefore hlength =>
    obtain ⟨hstands, hready⟩ := hvisited hsplit hbefore
    have hstands' : token.StandsIn { store with memo := memo' } := hstands.of_entries_eq rfl
    have hready' : token.Ready ({ store with memo := memo' } : Store).memo := hready
    exact ⟨hstands, hready'.mono ((token.leads_readLength limits hstands').keeps hlength)⟩
  | raised _ hraises ih => exact hraises.ready ih.1 ih.2

end Ready

namespace Token

variable {limits : Thresholds} {memo memo' : Memo}

theorem run_readAll_append (ts us : List Token) : (readAll limits (ts ++ us)).run memo =
    match (readAll limits ts).run memo with
    | (some _, memo) => (readAll limits us).run memo
    | (none, memo) => (none, memo) := by
  induction ts generalizing memo with
  | nil => rfl
  | cons t ts ih =>
    rw [List.cons_append, readAll, readAll, Reading.run_bind, Reading.run_bind]
    rcases t.readLength.run memo with ⟨_ | n, memo₁⟩
    · rfl
    · dsimp only
      rw [Reading.run_bind, Reading.run_bind]
      rcases (t.readMultiline limits).run memo₁ with ⟨_ | b, memo₂⟩
      · rfl
      · exact ih

/-- If a tree is measured to the end, each of its tokens is asked for both measurements. -/
theorem exists_asked {root t : Token} (ht : t ∈ root.walk)
    (hok : (root.measure limits).run memo = (some (), memo')) :
    (∃ m, root.Asked limits memo ⟨t, .length, m⟩) ∧
      ∃ m, root.Asked limits memo ⟨t, .multiline, m⟩ := by
  obtain ⟨before, after, hwalk⟩ := List.append_of_mem (List.mem_reverse.2 ht)
  rw [measure, hwalk, run_readAll_append] at hok
  rcases hbefore : (readAll limits before).run memo with ⟨_ | _, memo₁⟩ <;> rw [hbefore] at hok
  · simp at hok
  · dsimp only at hok
    rw [readAll, Reading.run_bind] at hok
    rcases hlength : t.readLength.run memo₁ with ⟨_ | n, memo₂⟩ <;> rw [hlength] at hok
    · simp at hok
    · exact ⟨⟨memo₁, .length hwalk hbefore⟩, memo₂, .multiline hwalk hbefore hlength⟩

end Token

/-! ## Nothing below is measured again -/

namespace Token

variable {limits : Thresholds} {memo : Memo}

theorem Full.decided {t : Token} (h : t.Full memo) : t.Decided memo :=
  fun u hu hkind => (Bool.and_eq_true_iff.1 (h u hu hkind)).2

/-- Where everything is measured a length is read without a change to the memo. -/
theorem Full.exists_readLength {t : Token} (h : t.Full memo) :
    ∃ value, t.readLength.run memo = (value, memo) := by
  induction t using children_induction with
  | step t ih =>
    cases t with
    | leaf | blank | foreign => exact ⟨_, rfl⟩
    | group tag commas forced parts =>
      obtain ⟨n, hn⟩ := Option.isSome_iff_exists.1 (Bool.and_eq_true_iff.1 (Every.root h rfl)).1
      have hcell : (memo.get tag.id).length = some n := hn
      exact ⟨some n, by simp [readLength, Reading.keepLength, hcell]⟩
    | bracket tag frame body =>
      obtain ⟨value, hbody⟩ := ih body (List.mem_singleton_self body) (Every.body h)
      refine ⟨value.map (· + (frame.length : Int)), ?_⟩
      rw [readLength, Reading.run_bind, hbody]
      cases value <;> rfl

theorem exists_readLengths_of_full {ts : List Token} (h : ∀ t ∈ ts, t.Full memo) :
    ∃ value, (readLengths ts).run memo = (value, memo) := by
  induction ts with
  | nil => exact ⟨some 0, rfl⟩
  | cons t ts ih =>
    obtain ⟨first, hfirst⟩ := (h t (by simp)).exists_readLength
    obtain ⟨rest, hrest⟩ := ih fun u hu => h u (by simp [hu])
    refine ⟨first.bind fun n => rest.map (n + ·), ?_⟩
    rw [readLengths, Reading.run_bind, hfirst]
    cases first with
    | none => rfl
    | some n =>
      dsimp only
      rw [Reading.run_bind, hrest]
      cases rest <;> rfl

theorem exists_readAnyMultiline_of_full {ts : List Token} (h : ∀ t ∈ ts, t.Full memo) :
    ∃ value, (readAnyMultiline limits ts).run memo = (value, memo) := by
  induction ts with
  | nil => exact ⟨some false, rfl⟩
  | cons t ts ih =>
    obtain ⟨first, hfirst⟩ := (h t (by simp)).decided.exists_readMultiline
    obtain ⟨rest, hrest⟩ := ih fun u hu => h u (by simp [hu])
    rw [readAnyMultiline, Reading.run_bind, hfirst]
    rcases first with _ | _ | _
    · exact ⟨none, rfl⟩
    · exact ⟨rest, hrest⟩
    · exact ⟨some true, rfl⟩

end Token

/-- The cells of all tokens but one are the same in both memos. -/
def Memo.AgreeExcept (id : TokenId) (memo memo' : Memo) : Prop :=
  ∀ other, other ≠ id → memo'.get other = memo.get other

namespace Memo.AgreeExcept

variable {id : TokenId} {memo memo' memo'' : Memo}

theorem refl (id : TokenId) (memo : Memo) : AgreeExcept id memo memo :=
  fun _ _ => rfl

theorem trans (h : AgreeExcept id memo memo') (h' : AgreeExcept id memo' memo'') :
    AgreeExcept id memo memo'' :=
  fun other hne => (h' other hne).trans (h other hne)

theorem set (id : TokenId) (memo : Memo) (cells : Cells) :
    AgreeExcept id memo (memo.set id cells) :=
  fun other hne => by rw [get_set, if_neg hne.symm]

end Memo.AgreeExcept

namespace Reading

open Memo

variable {id : TokenId} {memo memo' : Memo}

theorem agreeExcept_keepLength {x : Reading Int} (hx : AgreeExcept id memo (x.run memo).2) :
    AgreeExcept id memo ((keepLength id x).run memo).2 := by
  rw [keepLength]
  dsimp only
  split
  · exact .refl id memo
  · split <;> rename_i hrun <;> rw [hrun] at hx
    · exact hx.trans (.set id _ _)
    · exact hx

theorem agreeExcept_keepMultiline {x : Reading Bool} (hx : AgreeExcept id memo (x.run memo).2) :
    AgreeExcept id memo ((keepMultiline id x).run memo).2 := by
  rw [keepMultiline]
  dsimp only
  split
  · exact .refl id memo
  · split <;> rename_i hrun <;> rw [hrun] at hx
    · exact hx.trans (.set id _ _)
    · exact hx

end Reading

namespace Token

open Memo

variable {limits : Thresholds} {store : Store} {memo : Memo}

theorem Ready.agreeExcept_readLength {t : Token} (h : t.Ready memo) :
    AgreeExcept t.tag.id memo (t.readLength.run memo).2 := by
  cases t with
  | leaf | blank | foreign => exact .refl _ memo
  | group tag commas forced parts =>
    have hfull : ∀ part ∈ parts, part.Full memo := h
    obtain ⟨value, hparts⟩ := exists_readLengths_of_full hfull
    rw [readLength]
    refine Reading.agreeExcept_keepLength ?_
    rw [hparts]
    exact .refl _ memo
  | bracket tag frame body =>
    obtain ⟨value, hbody⟩ := (h body (List.mem_singleton_self body)).exists_readLength
    rw [readLength, Reading.run_bind, hbody]
    cases value <;> exact .refl _ memo

theorem Ready.agreeExcept_readMultiline {t : Token} (h : t.Ready memo) (hs : t.StandsIn store) :
    AgreeExcept t.tag.id memo ((t.readMultiline limits).run memo).2 := by
  cases t with
  | leaf | blank | foreign => exact .refl _ memo
  | bracket tag frame body =>
    obtain ⟨value, hbody⟩ := (h body (List.mem_singleton_self body)).decided.exists_readMultiline
    rw [readMultiline, Reading.run_bind, hbody]
    cases value <;> exact .refl _ memo
  | group tag commas forced parts =>
    cases forced with
    | some decision =>
      rw [readMultiline]
      exact Reading.agreeExcept_keepMultiline (.refl _ memo)
    | none =>
      have hstands : (group tag commas none parts).StandsIn { store with memo } :=
        hs.of_entries_eq rfl
      have hown := h.agreeExcept_readLength
      rw [readMultiline]
      refine Reading.agreeExcept_keepMultiline ?_
      rw [Reading.run_bind]
      rcases hrun : (group tag commas none parts).readLength.run memo with ⟨_ | n, memo'⟩ <;>
        rw [hrun] at hown
      · exact hown
      · -- Filling its own length leaves the parts of the group measured.
        have hkeeps := (leads_readLength limits _ hstands).keeps hrun
        have hfull : ∀ part ∈ parts, part.Full memo' := fun part hp =>
          Full.mono (show part.Full ({ store with memo } : Store).memo from h part hp) hkeeps
        obtain ⟨value, hparts⟩ := exists_readAnyMultiline_of_full hfull
        dsimp only
        split
        · exact hown
        · rw [hparts]
          exact hown

end Token

/-- A ready token is measured from the cells below it: no cell is filled but its own. -/
theorem Query.agreeExcept_memoAfter {limits : Thresholds} {store : Store} {query : Query}
    (hs : query.token.StandsIn store) (hready : query.token.Ready query.memo) :
    Memo.AgreeExcept query.token.tag.id query.memo (query.memoAfter limits) := by
  obtain ⟨token, measurement, memo⟩ := query
  cases measurement with
  | length => exact hready.agreeExcept_readLength
  | multiline => exact hready.agreeExcept_readMultiline hs

/-! ## Order of walking and measuring -/

namespace Store

/-- If tokens are numbered after those below them, none contains itself. -/
theorem closed_acyclic_of_forall_lt {store : Store}
    (h : ∀ id, ∀ hid : id < store.entries.size,
      ∀ child ∈ store.entries[id].node.below, child < id) :
    store.Closed ∧ store.Acyclic := by
  have hchild : ∀ parent child, store.Child parent child →
      child < parent ∧ parent < store.entries.size := by
    rintro parent child ⟨entry, hfound, hmem⟩
    obtain ⟨hparent, rfl⟩ := Array.getElem?_eq_some_iff.1 hfound
    exact ⟨h parent hparent child hmem, hparent⟩
  have hbelow : ∀ id other, Relation.TransGen store.Child id other → other < id := by
    intro id other hpath
    induction hpath with
    | single hc => exact (hchild _ _ hc).1
    | tail _ hc ih => exact (hchild _ _ hc).1.trans ih
  exact ⟨fun parent child hc => (hchild parent child hc).1.trans (hchild parent child hc).2,
    fun id hpath => Nat.lt_irrefl id (hbelow id id hpath)⟩

/-- The tokens of a store are walked as the tree `t` under a token. -/
structure WalkedAs (store : Store) (id : TokenId) (t : Token) : Prop where
  /-- The tree shows every token as it is in the store, wherever it occurs. -/
  stands : t.tag.id = id ∧ t.StandsIn store
  /-- The rounds come to an end, with the tokens of the tree listed. -/
  rounds : store.Rounds ⟨[id], []⟩ ⟨[], t.walk.map fun u => u.tag.id⟩
  /-- They are in the order of the tree: a token, then the trees right below it one by one. -/
  preorder : t.walk = t.preorder
  unfolds : ∀ u : Token, u.walk = u :: u.children.flatMap Token.walk
  /-- A token that stands in several places is listed in each of them, with all below it. -/
  shared : ∀ other entry, store.find? other = some entry →
    store.listing other = other :: entry.node.below.flatMap store.listing
  token : (Build.walk (.token id)).run store = (.ok (t.preorder.map fun u => .token u.kind), store)
  /-- There is nothing below a plain value. -/
  datum : ∀ value, (Build.walk (.datum value)).run store = (.ok [value.kind], store)

/-- The tokens of the tree `t` under a token are measured after those below them. -/
structure MeasuredFromBelow (store : Store) (id : TokenId) (t : Token) : Prop where
  /-- The walk is gone through from its end. -/
  reversed : ∀ limits, (Build.measure limits (.token id)).run store =
    (Build.reading (Token.readAll limits t.preorder.reverse)).run store
  /-- Whenever a token is asked for its length or its decision, for its own sake or for that of
  another, both cells of all groups below it are filled. -/
  ready : ∀ limits query, t.Asked limits store.memo query → query.token.Ready query.memo
  /-- So the answer fills no cell but its own. -/
  own : ∀ limits query, t.Asked limits store.memo query →
    Memo.AgreeExcept query.token.tag.id query.memo (query.memoAfter limits)
  /-- If nothing is in the way, all tokens are asked for both. -/
  asked : ∀ limits, ((Build.measure limits (.token id)).run store).1 = .ok () → ∀ u ∈ t.walk,
    (∃ memo, t.Asked limits store.memo ⟨u, .length, memo⟩) ∧
      ∃ memo, t.Asked limits store.memo ⟨u, .multiline, memo⟩

variable {store : Store} {id : TokenId} {t : Token}

theorem walkedAs_of_tree? (hclosed : store.Closed) (hacyclic : store.Acyclic)
    (ht : store.tree? id = some t) : store.WalkedAs id t where
  stands := standsIn_of_tree? ht
  rounds := by
    obtain ⟨rfl, hs⟩ := standsIn_of_tree? ht
    exact rounds_of_standsIn hs [] []
  preorder := t.walk_eq_preorder
  unfolds := Token.walk_eq
  shared _ _ hfound := listing_eq hclosed hacyclic hfound
  token := by
    rw [Build.walk, Attempt.run_bind, Build.run_tree ht, ← t.walk_eq_preorder]
    rfl
  datum _ := rfl

theorem measuredFromBelow_of_tree? (ht : store.tree? id = some t) :
    store.MeasuredFromBelow id t := by
  have hs := (standsIn_of_tree? ht).2
  have hmeasure (limits : Thresholds) : (Build.measure limits (.token id)).run store =
      (Build.reading (t.measure limits)).run store := by
    rw [Build.measure, Attempt.run_bind, Build.run_tree ht]
  refine ⟨fun limits => ?_, fun limits query h => (h.ready hs).2, fun limits query h => ?_,
    fun limits hok u hu => ?_⟩
  · rw [hmeasure, Token.measure, t.walk_eq_preorder]
  · obtain ⟨hstands, hready⟩ := h.ready hs
    exact Query.agreeExcept_memoAfter hstands hready
  · rw [hmeasure, Build.reading] at hok
    dsimp only at hok
    rcases hrun : (t.measure limits).run store.memo with ⟨_ | _, memo⟩
    · simp [hrun] at hok
    · exact Token.exists_asked hu hrun

end Store

/-- Tokens of which none contains itself are walked to the end, in the order of the tree under the
first one, and measured from the bottom of that tree. -/
theorem Store.walked_then_measured {store : Store} (hclosed : store.Closed)
    (hacyclic : store.Acyclic) {id : TokenId} (hid : store.Has id) :
    ∃ t, store.tree? id = some t ∧ store.WalkedAs id t ∧ store.MeasuredFromBelow id t := by
  obtain ⟨t, ht⟩ := exists_tree_of_acyclic hclosed hacyclic hid
  exact ⟨t, ht, walkedAs_of_tree? hclosed hacyclic ht, measuredFromBelow_of_tree? ht⟩

/-- A group stands beside a bracket round it. When the group above both is asked for its length, the
cells of the one below are filled. -/
theorem Store.walked_then_measured_shared :
    let store : Store := { entries := #[⟨{ breakable := true }, .leaf .word "ab"⟩,
      ⟨{}, .group true none [0, 0]⟩, ⟨{}, .bracket { opening := "(", closing := ")" } 1⟩,
      ⟨{}, .group false none [1, 2]⟩] }
    let word : Token := .leaf { breakable := true, id := 0 } .word "ab"
    let inner : Token := .group { id := 1 } true none [word, word]
    let root : Token := .group { id := 3 } false none
      [inner, .bracket { id := 2 } { opening := "(", closing := ")" } inner]
    (store.Closed ∧ store.Acyclic) ∧ store.Has 3 ∧ store.tree? 3 = some root ∧
      store.Rounds ⟨[3], []⟩ ⟨[], [3, 1, 0, 0, 2, 1, 0, 0]⟩ ∧
      ∃ memo, root.Asked {} store.memo ⟨root, .length, memo⟩ ∧ (memo.get 1).full = true := by
  intro store word inner root
  have horder : store.Closed ∧ store.Acyclic := closed_acyclic_of_forall_lt (by decide)
  have hid : 3 < store.entries.size := by decide
  have hroot : store.tree? 3 = some root := rfl
  obtain ⟨t, ht, hwalked, hmeasured⟩ := walked_then_measured horder.1 horder.2 hid
  obtain rfl : t = root := Option.some.inj (ht.symm.trans hroot)
  have hnumbers : root.preorder.map (fun u => u.tag.id) = [3, 1, 0, 0, 2, 1, 0, 0] := rfl
  have hrounds := hwalked.rounds
  rw [hwalked.preorder, hnumbers] at hrounds
  have hok : ((Build.measure {} (.token 3)).run store).1 = .ok () := by decide +kernel
  have hmem : root ∈ root.walk := hwalked.preorder ▸ root.mem_preorder_self
  obtain ⟨⟨memo, hasked⟩, -⟩ := hmeasured.asked {} hok root hmem
  have hready := hmeasured.ready {} _ hasked inner (by simp [root, Token.children])
  exact ⟨horder, hid, hroot, hrounds, memo, hasked, hready inner inner.mem_preorder_self rfl⟩

end TokenLayout
