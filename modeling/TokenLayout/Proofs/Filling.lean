import TokenLayout.Proofs.Standing
import TokenLayout.Token.Measure

/-!
# How cells are filled

The measurements of a token are known once the cells below it are filled: `Store.KnownLength` and
`Store.KnownMultiline` read them off the nearest groups, through the brackets in between. A cell is
filled from what is known of the parts of its group, and never changes (`Fill`).

What a reading finds is what the memo has in the cells that are filled, and what the tree gives
where they are empty (`Token.lengthIn?`, `Token.multilineIn?`). Filling a cell changes none of it
(`Fill.lengthIn?_eq`, `Fill.multilineIn?_eq`). So readings are a matter of the memo they start from,
whatever they fill on the way (`Token.leads_readLength`, `Token.leads_readMultiline`).
-/

namespace TokenLayout

/-! ## Cells -/

namespace Memo

variable (memo : Memo) (id other : TokenId)

@[simp] theorem length_fillLength (n : Int) : ((memo.fillLength id n).get other).length =
    if id = other then some n else (memo.get other).length := by
  rw [fillLength, get_set]
  split <;> rfl

@[simp] theorem multiline_fillLength (n : Int) :
    ((memo.fillLength id n).get other).multiline = (memo.get other).multiline := by
  rw [fillLength, get_set]
  split
  · rename_i h
    rw [h]
  · rfl

@[simp] theorem multiline_fillMultiline (b : Bool) :
    ((memo.fillMultiline id b).get other).multiline =
      if id = other then some b else (memo.get other).multiline := by
  rw [fillMultiline, get_set]
  split <;> rfl

@[simp] theorem length_fillMultiline (b : Bool) :
    ((memo.fillMultiline id b).get other).length = (memo.get other).length := by
  rw [fillMultiline, get_set]
  split
  · rename_i h
    rw [h]
  · rfl

end Memo

/-- A group of some length and some number of parts is too big for one line. -/
def Thresholds.exceeded (limits : Thresholds) (length : Int) (count : Nat) : Bool :=
  length > limits.maxLength || count > limits.maxChildren

/-! ## What is known -/

namespace Store

/-- The length of a token is known from the cells of the groups nearest to it. -/
inductive KnownLength (store : Store) : TokenId → Int → Prop
  | leaf {id : TokenId} {marks : Marks} {role : LeafRole} {text : String}
      (hid : store.find? id = some ⟨marks, .leaf role text⟩) : KnownLength store id text.length
  | group {id : TokenId} {marks : Marks} {commas : Bool} {forced : Option Bool}
      {parts : List TokenId} {n : Int}
      (hid : store.find? id = some ⟨marks, .group commas forced parts⟩)
      (hn : (store.memo.get id).length = some n) : KnownLength store id n
  | bracket {id : TokenId} {marks : Marks} {frame : Frame} {body : TokenId} {n : Int}
      (hid : store.find? id = some ⟨marks, .bracket frame body⟩)
      (hbody : KnownLength store body n) : KnownLength store id (n + frame.length)
  | foreign {id : TokenId} {marks : Marks} {length : Int} {multiline : Bool}
      (hid : store.find? id = some ⟨marks, .foreign length multiline⟩) :
      KnownLength store id length

/-- The lengths of some tokens are known and add up to `n`. -/
inductive KnownLengths (store : Store) : List TokenId → Int → Prop
  | nil : KnownLengths store [] 0
  | cons {id : TokenId} {ids : List TokenId} {n m : Int} (hid : store.KnownLength id n)
      (hids : KnownLengths store ids m) : KnownLengths store (id :: ids) (n + m)

/-- Whether a token takes several lines is known from the cells of the groups nearest to it. -/
inductive KnownMultiline (store : Store) : TokenId → Bool → Prop
  | leaf {id : TokenId} {marks : Marks} {role : LeafRole} {text : String}
      (hid : store.find? id = some ⟨marks, .leaf role text⟩) : KnownMultiline store id false
  | group {id : TokenId} {marks : Marks} {commas : Bool} {forced : Option Bool}
      {parts : List TokenId} {b : Bool}
      (hid : store.find? id = some ⟨marks, .group commas forced parts⟩)
      (hb : (store.memo.get id).multiline = some b) : KnownMultiline store id b
  | bracket {id : TokenId} {marks : Marks} {frame : Frame} {body : TokenId} {b : Bool}
      (hid : store.find? id = some ⟨marks, .bracket frame body⟩)
      (hbody : KnownMultiline store body b) : KnownMultiline store id (b || frame.ownLine)
  | foreign {id : TokenId} {marks : Marks} {length : Int} {multiline : Bool}
      (hid : store.find? id = some ⟨marks, .foreign length multiline⟩) :
      KnownMultiline store id multiline

/-- Whether one of some tokens takes several lines is known, up to the first that does. -/
inductive KnownAny (store : Store) : List TokenId → Bool → Prop
  | nil : KnownAny store [] false
  | found {id : TokenId} {ids : List TokenId} (hid : store.KnownMultiline id true) :
      KnownAny store (id :: ids) true
  | next {id : TokenId} {ids : List TokenId} {b : Bool} (hid : store.KnownMultiline id false)
      (hids : KnownAny store ids b) : KnownAny store (id :: ids) b

/-- The decision `b` of a group is the one it is forced to, or is taken under `limits` from what is
known of its length and parts. -/
def Verdict (store : Store) (limits : Thresholds) (id : TokenId) (forced : Option Bool)
    (parts : List TokenId) (b : Bool) : Prop :=
  match forced with
  | some decision => b = decision
  | none => ∃ n, (store.memo.get id).length = some n ∧
      if limits.exceeded n parts.length then b = true else store.KnownAny parts b

end Store

theorem Node.kind_leaf_ne_group (role : LeafRole) (text : String) :
    (Node.leaf role text).kind ≠ .group := by
  cases role <;> simp [Node.kind, LeafRole.kind]

/-- What is known stays known: filled cells keep their values, and the content of a token stays the
same, but for groups that are not measured yet. -/
structure Store.Keeps (store store' : Store) : Prop where
  length : ∀ id n, (store.memo.get id).length = some n → (store'.memo.get id).length = some n
  multiline : ∀ id b,
    (store.memo.get id).multiline = some b → (store'.memo.get id).multiline = some b
  node : ∀ id marks node, store.find? id = some ⟨marks, node⟩ →
    ((store.memo.get id).measured = true ∨ node.kind ≠ .group) →
      ∃ marks', store'.find? id = some ⟨marks', node⟩

namespace Store

variable {store store' store'' : Store}

theorem measured_of_length {id : TokenId} {n : Int} (h : (store.memo.get id).length = some n) :
    (store.memo.get id).measured = true := by
  simp [Cells.measured, h]

theorem measured_of_multiline {id : TokenId} {b : Bool}
    (h : (store.memo.get id).multiline = some b) : (store.memo.get id).measured = true := by
  simp [Cells.measured, h]

theorem Keeps.refl (store : Store) : store.Keeps store :=
  ⟨fun _ _ h => h, fun _ _ h => h, fun _ marks _ h _ => ⟨marks, h⟩⟩

/-- What is measured stays so. -/
theorem Keeps.measured (h : store.Keeps store') {id : TokenId}
    (hm : (store.memo.get id).measured = true) : (store'.memo.get id).measured = true := by
  rw [Cells.measured, Bool.or_eq_true, Option.isSome_iff_exists, Option.isSome_iff_exists] at hm
  rcases hm with ⟨n, hn⟩ | ⟨b, hb⟩
  · exact measured_of_length (h.length id n hn)
  · exact measured_of_multiline (h.multiline id b hb)

theorem Keeps.trans (h : store.Keeps store') (h' : store'.Keeps store'') :
    store.Keeps store'' := by
  refine ⟨fun id n hn => h'.length id n (h.length id n hn),
    fun id b hb => h'.multiline id b (h.multiline id b hb), fun id marks node hid hm => ?_⟩
  obtain ⟨marks', hid'⟩ := h.node id marks node hid hm
  exact h'.node id marks' node hid' (hm.imp h.measured fun hkind => hkind)

theorem KnownLength.mono {id : TokenId} {n : Int} (h : store.KnownLength id n)
    (hk : store.Keeps store') : store'.KnownLength id n := by
  induction h with
  | leaf hid =>
    obtain ⟨_, hid'⟩ := hk.node _ _ _ hid (Or.inr (Node.kind_leaf_ne_group _ _))
    exact .leaf hid'
  | group hid hn =>
    obtain ⟨_, hid'⟩ := hk.node _ _ _ hid (Or.inl (measured_of_length hn))
    exact .group hid' (hk.length _ _ hn)
  | bracket hid _ ih =>
    obtain ⟨_, hid'⟩ := hk.node _ _ _ hid (Or.inr (by simp [Node.kind]))
    exact .bracket hid' ih
  | foreign hid =>
    obtain ⟨_, hid'⟩ := hk.node _ _ _ hid (Or.inr (by simp [Node.kind]))
    exact .foreign hid'

/-- The known length of a group is in its cell. -/
theorem KnownLength.cell {id : TokenId} {n : Int} (h : store.KnownLength id n) {marks : Marks}
    {commas : Bool} {forced : Option Bool} {parts : List TokenId}
    (hid : store.find? id = some ⟨marks, .group commas forced parts⟩) :
    (store.memo.get id).length = some n := by
  cases h <;> simp_all

theorem KnownLengths.mono {ids : List TokenId} {n : Int} (h : store.KnownLengths ids n)
    (hk : store.Keeps store') : store'.KnownLengths ids n := by
  induction h with
  | nil => exact .nil
  | cons hid _ ih => exact .cons (hid.mono hk) ih

theorem KnownMultiline.mono {id : TokenId} {b : Bool} (h : store.KnownMultiline id b)
    (hk : store.Keeps store') : store'.KnownMultiline id b := by
  induction h with
  | leaf hid =>
    obtain ⟨_, hid'⟩ := hk.node _ _ _ hid (Or.inr (Node.kind_leaf_ne_group _ _))
    exact .leaf hid'
  | group hid hb =>
    obtain ⟨_, hid'⟩ := hk.node _ _ _ hid (Or.inl (measured_of_multiline hb))
    exact .group hid' (hk.multiline _ _ hb)
  | bracket hid _ ih =>
    obtain ⟨_, hid'⟩ := hk.node _ _ _ hid (Or.inr (by simp [Node.kind]))
    exact .bracket hid' ih
  | foreign hid =>
    obtain ⟨_, hid'⟩ := hk.node _ _ _ hid (Or.inr (by simp [Node.kind]))
    exact .foreign hid'

/-- The known decision of a group is in its cell. -/
theorem KnownMultiline.cell {id : TokenId} {b : Bool} (h : store.KnownMultiline id b)
    {marks : Marks} {commas : Bool} {forced : Option Bool} {parts : List TokenId}
    (hid : store.find? id = some ⟨marks, .group commas forced parts⟩) :
    (store.memo.get id).multiline = some b := by
  cases h <;> simp_all

theorem KnownAny.mono {ids : List TokenId} {b : Bool} (h : store.KnownAny ids b)
    (hk : store.Keeps store') : store'.KnownAny ids b := by
  induction h with
  | nil => exact .nil
  | found hid => exact .found (hid.mono hk)
  | next hid _ ih => exact .next (hid.mono hk) ih

theorem Verdict.mono {limits : Thresholds} {id : TokenId} {forced : Option Bool}
    {parts : List TokenId} {b : Bool} (h : store.Verdict limits id forced parts b)
    (hk : store.Keeps store') : store'.Verdict limits id forced parts b := by
  cases forced with
  | some decision => exact h
  | none =>
    obtain ⟨n, hn, hb⟩ := h
    refine ⟨n, hk.length id n hn, ?_⟩
    split at hb <;> rename_i hexceeded
    · rwa [if_pos hexceeded]
    · rw [if_neg hexceeded]
      exact hb.mono hk

end Store

/-- A cell of a group is filled from what is known, under the thresholds `limits`. A filled cell
keeps its value. -/
inductive Fill (limits : Thresholds) : Store → Store → Prop
  | length {store : Store} {id : TokenId} {marks : Marks} {commas : Bool} {forced : Option Bool}
      {parts : List TokenId} {n : Int}
      (hid : store.find? id = some ⟨marks, .group commas forced parts⟩)
      (hold : ∀ m, (store.memo.get id).length = some m → m = n)
      (hn : store.KnownLengths parts n) :
      Fill limits store { store with memo := store.memo.fillLength id n }
  | multiline {store : Store} {id : TokenId} {marks : Marks} {commas : Bool}
      {forced : Option Bool} {parts : List TokenId} {b : Bool}
      (hid : store.find? id = some ⟨marks, .group commas forced parts⟩)
      (hold : ∀ c, (store.memo.get id).multiline = some c → c = b)
      (hb : store.Verdict limits id forced parts b) :
      Fill limits store { store with memo := store.memo.fillMultiline id b }

/-- Cells are filled one after the other. -/
abbrev Fills (limits : Thresholds) : Store → Store → Prop :=
  Relation.ReflTransGen (Fill limits)

namespace Fill

variable {limits : Thresholds} {store store' : Store}

theorem entries_eq (h : Fill limits store store') : store'.entries = store.entries := by
  cases h <;> rfl

theorem keeps (h : Fill limits store store') : store.Keeps store' := by
  cases h with
  | length hid hold hn =>
    refine ⟨fun id' m hm => ?_, fun id' b hb => by simpa using hb, fun _ marks _ h _ => ⟨marks, h⟩⟩
    simp only [Memo.length_fillLength]
    split <;> rename_i heq
    · subst heq
      rw [hold m hm]
    · exact hm
  | multiline hid hold hb =>
    refine ⟨fun id' n hn => by simpa using hn, fun id' c hc => ?_, fun _ marks _ h _ => ⟨marks, h⟩⟩
    simp only [Memo.multiline_fillMultiline]
    split <;> rename_i heq
    · subst heq
      rw [hold c hc]
    · exact hc

end Fill

namespace Fills

variable {limits : Thresholds} {store store' : Store}

theorem entries_eq (h : Fills limits store store') : store'.entries = store.entries := by
  induction h with
  | refl => rfl
  | tail _ hf ih => rw [hf.entries_eq, ih]

theorem keeps (h : Fills limits store store') : store.Keeps store' := by
  induction h with
  | refl => exact .refl store
  | tail _ hf ih => exact ih.trans hf.keeps

end Fills

/-! ## What a reading finds -/

namespace Token

mutual

/-- The length of a token, from the memo where a cell is filled and from the tree elsewhere. -/
def lengthIn? (memo : Memo) : Token → Option Int
  | leaf _ _ text => some text.length
  | group tag _ _ parts => (memo.get tag.id).length.or (lengthsIn? memo parts)
  | bracket _ frame body => do return (← body.lengthIn? memo) + frame.length
  | blank _ => none
  | foreign _ length _ => some length

/-- The sum of the lengths of some tokens. -/
def lengthsIn? (memo : Memo) : List Token → Option Int
  | [] => some 0
  | token :: tokens => do return (← token.lengthIn? memo) + (← lengthsIn? memo tokens)

end

mutual

/-- Whether a token takes several lines, from the memo where a cell is filled and from the tree
elsewhere. -/
def multilineIn? (limits : Thresholds) (memo : Memo) : Token → Option Bool
  | leaf .. => some false
  | group tag _ (some forced) _ => (memo.get tag.id).multiline.or (some forced)
  | group tag commas none parts => (memo.get tag.id).multiline.or do
    let length ← (group tag commas none parts).lengthIn? memo
    if limits.exceeded length parts.length then return true
    anyMultilineIn? limits memo parts
  | bracket _ frame body => do return (← body.multilineIn? limits memo) || frame.ownLine
  | blank _ => none
  | foreign _ _ multiline => some multiline

/-- Whether one of some tokens takes several lines, up to the first that does. -/
def anyMultilineIn? (limits : Thresholds) (memo : Memo) : List Token → Option Bool
  | [] => some false
  | token :: tokens => do
    if ← token.multilineIn? limits memo then return true
    anyMultilineIn? limits memo tokens

end

end Token

/-! ## Filling changes nothing that is found -/

namespace Token

variable {store : Store}

theorem StandsIn.eq_leaf {t : Token} {id : TokenId} {marks : Marks} {role : LeafRole}
    {text : String} (h : t.StandsIn store) (ht : t.tag.id = id)
    (hid : store.find? id = some ⟨marks, .leaf role text⟩) :
    ∃ tag, t = leaf tag role text := by
  have hentry := h.find?
  rw [ht, hid, Option.some.injEq, Entry.mk.injEq] at hentry
  cases t <;> simp_all [node]

/-- A token that the store has as a group is a group with those parts. -/
theorem StandsIn.eq_group {t : Token} {id : TokenId} {marks : Marks} {commas : Bool}
    {forced : Option Bool} {ids : List TokenId} (h : t.StandsIn store) (ht : t.tag.id = id)
    (hid : store.find? id = some ⟨marks, .group commas forced ids⟩) :
    ∃ tag parts, t = group tag commas forced parts ∧ ids = parts.map fun part => part.tag.id := by
  have hentry := h.find?
  rw [ht, hid, Option.some.injEq, Entry.mk.injEq] at hentry
  cases t <;> simp_all [node]

theorem StandsIn.eq_bracket {t : Token} {id : TokenId} {marks : Marks} {frame : Frame}
    {bodyId : TokenId} (h : t.StandsIn store) (ht : t.tag.id = id)
    (hid : store.find? id = some ⟨marks, .bracket frame bodyId⟩) :
    ∃ tag body, t = bracket tag frame body ∧ body.tag.id = bodyId := by
  have hentry := h.find?
  rw [ht, hid, Option.some.injEq, Entry.mk.injEq] at hentry
  cases t <;> simp_all [node]

theorem StandsIn.eq_foreign {t : Token} {id : TokenId} {marks : Marks} {length : Int}
    {multiline : Bool} (h : t.StandsIn store) (ht : t.tag.id = id)
    (hid : store.find? id = some ⟨marks, .foreign length multiline⟩) :
    ∃ tag, t = foreign tag length multiline := by
  have hentry := h.find?
  rw [ht, hid, Option.some.injEq, Entry.mk.injEq] at hentry
  cases t <;> simp_all [node]

/-- A known length is found. -/
theorem lengthIn?_of_known {id : TokenId} {n : Int} (h : store.KnownLength id n) :
    ∀ {t : Token}, t.StandsIn store → t.tag.id = id → t.lengthIn? store.memo = some n := by
  induction h with
  | leaf hid =>
    intro t hs ht
    obtain ⟨tag, rfl⟩ := hs.eq_leaf ht hid
    rfl
  | group hid hn =>
    intro t hs ht
    obtain ⟨tag, parts, rfl, -⟩ := hs.eq_group ht hid
    rw [lengthIn?, show tag.id = _ from ht, hn, Option.some_or]
  | bracket hid _ ih =>
    intro t hs ht
    obtain ⟨tag, body, rfl, hbody⟩ := hs.eq_bracket ht hid
    simp [lengthIn?, ih hs.body hbody]
  | foreign hid =>
    intro t hs ht
    obtain ⟨tag, rfl⟩ := hs.eq_foreign ht hid
    rfl

/-- The lengths of the parts are those that are known. -/
theorem lengthsIn?_of_known : ∀ {ts : List Token} {n : Int}, (∀ t ∈ ts, t.StandsIn store) →
    store.KnownLengths (ts.map fun t => t.tag.id) n → lengthsIn? store.memo ts = some n
  | [], _, _, h => by
    cases h
    rfl
  | t :: ts, _, hs, h => by
    cases h with
    | cons hid hids =>
      have ht := lengthIn?_of_known hid (hs t (by simp)) rfl
      have hts := lengthsIn?_of_known (fun u hu => hs u (by simp [hu])) hids
      simp [lengthsIn?, ht, hts]

/-- A known decision is found. -/
theorem multilineIn?_of_known (limits : Thresholds) {id : TokenId} {b : Bool}
    (h : store.KnownMultiline id b) :
    ∀ {t : Token}, t.StandsIn store → t.tag.id = id →
      t.multilineIn? limits store.memo = some b := by
  induction h with
  | leaf hid =>
    intro t hs ht
    obtain ⟨tag, rfl⟩ := hs.eq_leaf ht hid
    rfl
  | group hid hb =>
    intro t hs ht
    obtain ⟨tag, parts, rfl, -⟩ := hs.eq_group ht hid
    rename_i forced _ _
    cases forced <;> rw [multilineIn?, show tag.id = _ from ht, hb, Option.some_or]
  | bracket hid _ ih =>
    intro t hs ht
    obtain ⟨tag, body, rfl, hbody⟩ := hs.eq_bracket ht hid
    simp [multilineIn?, ih hs.body hbody]
  | foreign hid =>
    intro t hs ht
    obtain ⟨tag, rfl⟩ := hs.eq_foreign ht hid
    rfl

/-- Whether one of the parts takes several lines is what is known of it. -/
theorem anyMultilineIn?_of_known (limits : Thresholds) : ∀ {ts : List Token} {b : Bool},
    (∀ t ∈ ts, t.StandsIn store) → store.KnownAny (ts.map fun t => t.tag.id) b →
      anyMultilineIn? limits store.memo ts = some b
  | [], _, _, h => by
    cases h
    rfl
  | t :: ts, _, hs, h => by
    cases h with
    | found hid =>
      simp [anyMultilineIn?, multilineIn?_of_known limits hid (hs t (by simp)) rfl]
    | next hid hids =>
      have ht := multilineIn?_of_known limits hid (hs t (by simp)) rfl
      have hts := anyMultilineIn?_of_known limits (fun u hu => hs u (by simp [hu])) hids
      simp [anyMultilineIn?, ht, hts]

theorem lengthsIn?_congr {memo memo' : Memo} : ∀ {ts : List Token},
    (∀ t ∈ ts, t.lengthIn? memo' = t.lengthIn? memo) → lengthsIn? memo' ts = lengthsIn? memo ts
  | [], _ => rfl
  | t :: ts, h => by
    rw [lengthsIn?, lengthsIn?, h t (by simp), lengthsIn?_congr fun u hu => h u (by simp [hu])]

theorem anyMultilineIn?_congr {limits : Thresholds} {memo memo' : Memo} : ∀ {ts : List Token},
    (∀ t ∈ ts, t.multilineIn? limits memo' = t.multilineIn? limits memo) →
      anyMultilineIn? limits memo' ts = anyMultilineIn? limits memo ts
  | [], _ => rfl
  | t :: ts, h => by
    rw [anyMultilineIn?, anyMultilineIn?, h t (by simp),
      anyMultilineIn?_congr fun u hu => h u (by simp [hu])]

end Token

namespace Fill

open Token

variable {limits : Thresholds} {store store' : Store} {tag : Tag} {commas : Bool}
  {forced : Option Bool} {parts : List Token}

/-- A length cell that is filled gets the length that is found without it. -/
theorem length_cell (h : Fill limits store store')
    (hs : (group tag commas forced parts).StandsIn store) :
    (store'.memo.get tag.id).length = (store.memo.get tag.id).length ∨
      ∃ n, (store'.memo.get tag.id).length = some n ∧
        (group tag commas forced parts).lengthIn? store.memo = some n := by
  cases h with
  | @length id _ _ _ ids n hid hold hn =>
    by_cases heq : id = tag.id
    · subst heq
      obtain ⟨tag', parts', ht, rfl⟩ := hs.eq_group rfl hid
      cases ht
      refine Or.inr ⟨n, by simp, ?_⟩
      rw [lengthIn?, lengthsIn?_of_known hs.part hn]
      cases hc : (store.memo.get tag.id).length with
      | none => rfl
      | some m => rw [Option.some_or, hold m hc]
    · exact Or.inl (by simp [heq])
  | multiline => exact Or.inl (by simp)

/-- Filling a cell changes no length that is found. -/
theorem lengthIn?_eq (h : Fill limits store store') {t : Token} (hs : t.StandsIn store) :
    t.lengthIn? store'.memo = t.lengthIn? store.memo := by
  induction t using children_induction with
  | step t ih =>
    cases t with
    | leaf => rfl
    | group tag commas forced parts =>
      have hparts : lengthsIn? store'.memo parts = lengthsIn? store.memo parts :=
        lengthsIn?_congr fun p hp => ih p hp (hs.part p hp)
      rcases h.length_cell hs with hc | ⟨n, hc, hn⟩
      · rw [lengthIn?, lengthIn?, hc, hparts]
      · rw [hn, lengthIn?, hc, Option.some_or]
    | bracket tag frame body =>
      rw [lengthIn?, lengthIn?, ih body (List.mem_singleton_self body) hs.body]
    | blank => rfl
    | foreign => rfl

/-- A decision cell that is filled gets the decision that is found without it. -/
theorem multiline_cell (h : Fill limits store store')
    (hs : (group tag commas forced parts).StandsIn store) :
    (store'.memo.get tag.id).multiline = (store.memo.get tag.id).multiline ∨
      ∃ b, (store'.memo.get tag.id).multiline = some b ∧
        (group tag commas forced parts).multilineIn? limits store.memo = some b := by
  cases h with
  | length => exact Or.inl (by simp)
  | @multiline id _ _ _ ids b hid hold hb =>
    by_cases heq : id = tag.id
    · subst heq
      obtain ⟨tag', parts', ht, rfl⟩ := hs.eq_group rfl hid
      cases ht
      refine Or.inr ⟨b, by simp, ?_⟩
      cases hc : (store.memo.get tag.id).multiline with
      | some c => cases forced <;> rw [multilineIn?, hc, Option.some_or, hold c hc]
      | none =>
        cases forced with
        | some decision => rw [multilineIn?, hc, Option.none_or, show b = decision from hb]
        | none =>
          obtain ⟨n, hn, hb⟩ := hb
          rw [List.length_map] at hb
          rw [multilineIn?, hc, Option.none_or, lengthIn?, hn, Option.some_or]
          by_cases hexceeded : limits.exceeded n parts.length
          · rw [if_pos hexceeded] at hb
            simp [hexceeded, hb]
          · rw [if_neg hexceeded] at hb
            simp [hexceeded, anyMultilineIn?_of_known limits hs.part hb]
    · exact Or.inl (by simp [heq])

/-- Filling a cell changes no decision that is found. -/
theorem multilineIn?_eq (h : Fill limits store store') {t : Token} (hs : t.StandsIn store) :
    t.multilineIn? limits store'.memo = t.multilineIn? limits store.memo := by
  induction t using children_induction with
  | step t ih =>
    cases t with
    | leaf => rfl
    | group tag commas forced parts =>
      have hparts : anyMultilineIn? limits store'.memo parts =
          anyMultilineIn? limits store.memo parts :=
        anyMultilineIn?_congr fun p hp => ih p hp (hs.part p hp)
      rcases h.multiline_cell hs with hc | ⟨b, hc, hb⟩
      · cases forced with
        | some decision => rw [multilineIn?, multilineIn?, hc]
        | none => rw [multilineIn?, multilineIn?, hc, hparts, h.lengthIn?_eq hs]
      · rw [hb]
        cases forced <;> rw [multilineIn?, hc, Option.some_or]
    | bracket tag frame body =>
      rw [multilineIn?, multilineIn?, ih body (List.mem_singleton_self body) hs.body]
    | blank => rfl
    | foreign => rfl

end Fill

namespace Fills

variable {limits : Thresholds} {store store' : Store}

/-- A tree stays where it is. -/
theorem standsIn (h : Fills limits store store') {t : Token} (hs : t.StandsIn store) :
    t.StandsIn store' :=
  hs.of_entries_eq h.entries_eq

theorem lengthIn?_eq (h : Fills limits store store') {t : Token} (hs : t.StandsIn store) :
    t.lengthIn? store'.memo = t.lengthIn? store.memo := by
  induction h with
  | refl => rfl
  | tail hfills hfill ih => rw [hfill.lengthIn?_eq (standsIn hfills hs), ih]

theorem multilineIn?_eq (h : Fills limits store store') {t : Token} (hs : t.StandsIn store) :
    t.multilineIn? limits store'.memo = t.multilineIn? limits store.memo := by
  induction h with
  | refl => rfl
  | tail hfills hfill ih => rw [hfill.multilineIn?_eq (standsIn hfills hs), ih]

end Fills

/-! ## Readings -/

namespace Reading

variable {α β : Type} {limits : Thresholds} {store : Store}

/-- From `store` the reading finds `value`. It fills cells on the way, and of a value that it finds
`post` holds in the store it leaves. -/
def Leads (limits : Thresholds) (store : Store) (x : Reading α) (value : Option α)
    (post : Store → α → Prop) : Prop :=
  ∃ memo', x.run store.memo = (value, memo') ∧
    Fills limits store { store with memo := memo' } ∧
    ∀ a, value = some a → post { store with memo := memo' } a

theorem leads_pure {a : α} {post : Store → α → Prop} (h : post store a) :
    (pure a : Reading α).Leads limits store (some a) post :=
  ⟨store.memo, rfl, .refl, fun _ ha => Option.some.inj ha ▸ h⟩

/-- A token that cannot be measured fills no cell. -/
theorem leads_unmeasurable {post : Store → α → Prop} :
    (unmeasurable : Reading α).Leads limits store none post :=
  ⟨store.memo, rfl, .refl, fun _ ha => nomatch ha⟩

theorem Leads.imp {x : Reading α} {value : Option α} {post post' : Store → α → Prop}
    (hx : x.Leads limits store value post)
    (h : ∀ a store', Fills limits store store' → post store' a → post' store' a) :
    x.Leads limits store value post' := by
  obtain ⟨memo', hrun, hfills, hpost⟩ := hx
  exact ⟨memo', hrun, hfills, fun a ha => h a _ hfills (hpost a ha)⟩

theorem Leads.bind {x : Reading α} {f : α → Reading β} {value : Option α} {post : Store → α → Prop}
    {value' : α → Option β} {post' : Store → β → Prop} (hx : x.Leads limits store value post)
    (hf : ∀ a store', value = some a → Fills limits store store' → post store' a →
      (f a).Leads limits store' (value' a) post') :
    (x >>= f).Leads limits store (value.bind value') post' := by
  obtain ⟨memo₁, hrun, hfills, hpost⟩ := hx
  cases value with
  | none => exact ⟨memo₁, by rw [run_bind, hrun]; rfl, hfills, fun _ ha => nomatch ha⟩
  | some a =>
    obtain ⟨memo₂, hrun', hfills', hpost'⟩ := hf a _ rfl hfills (hpost a rfl)
    exact ⟨memo₂, by rw [run_bind, hrun]; exact hrun', hfills.trans hfills', hpost'⟩

end Reading

namespace Token

open Reading

variable {limits : Thresholds}

section Keep

variable {store : Store} {tag : Tag} {commas : Bool} {forced : Option Bool} {parts : List Token}

/-- A length that was not in its cell is filled in, and it is what the parts give. -/
theorem leads_keepLength (hs : (group tag commas forced parts).StandsIn store) {x : Reading Int}
    (hx : x.Leads limits store (lengthsIn? store.memo parts)
      fun s n => s.KnownLengths (parts.map fun part => part.tag.id) n) :
    (keepLength tag.id x).Leads limits store
      ((group tag commas forced parts).lengthIn? store.memo) fun s n => s.KnownLength tag.id n := by
  obtain ⟨memo', hrun, hfills, hpost⟩ := hx
  have hstable := hfills.lengthIn?_eq hs
  rw [lengthIn?, lengthIn?] at hstable
  rw [lengthIn?, Leads, keepLength]
  cases hc : (store.memo.get tag.id).length with
  | some n =>
    refine ⟨store.memo, by simp [hc], .refl, fun a ha => .group hs.find? (hc.trans ha)⟩
  | none =>
    rw [hc, Option.none_or] at hstable
    cases hv : lengthsIn? store.memo parts with
    | none =>
      rw [hv] at hrun
      exact ⟨memo', by simp [hc, hrun], hfills, fun _ ha => nomatch ha⟩
    | some n =>
      rw [hv] at hrun hstable
      -- A cell that is filled meanwhile has the length that is found.
      have hold : ∀ m, (memo'.get tag.id).length = some m → m = n := by
        intro m hm
        rw [hm, Option.some_or] at hstable
        exact Option.some.inj hstable
      refine ⟨memo'.fillLength tag.id n, by simp [hc, hrun],
        hfills.tail (.length hs.find? hold (hpost n hv)), fun a ha => .group hs.find? ?_⟩
      simpa using ha

/-- A decision that was not in its cell is filled in, with what it was taken from. -/
theorem leads_keepMultiline (hs : (group tag commas forced parts).StandsIn store)
    {x : Reading Bool} {value : Option Bool}
    (hx : x.Leads limits store value
      fun s b => s.Verdict limits tag.id forced (parts.map fun part => part.tag.id) b)
    (hvalue : (group tag commas forced parts).multilineIn? limits store.memo =
      (store.memo.get tag.id).multiline.or value) :
    (keepMultiline tag.id x).Leads limits store
      ((group tag commas forced parts).multilineIn? limits store.memo)
      fun s b => s.KnownMultiline tag.id b := by
  obtain ⟨memo', hrun, hfills, hpost⟩ := hx
  have hstable := hfills.multilineIn?_eq hs
  rw [hvalue] at hstable ⊢
  rw [Leads, keepMultiline]
  cases hc : (store.memo.get tag.id).multiline with
  | some b =>
    refine ⟨store.memo, by simp [hc], .refl, fun a ha => .group hs.find? (hc.trans ha)⟩
  | none =>
    rw [hc, Option.none_or] at hstable
    cases value with
    | none => exact ⟨memo', by simp [hc, hrun], hfills, fun _ ha => nomatch ha⟩
    | some b =>
      have hold : ∀ c, (memo'.get tag.id).multiline = some c → c = b := by
        intro c hc'
        have hfound : (group tag commas forced parts).multilineIn? limits memo' = some c := by
          cases forced <;> rw [multilineIn?, hc', Option.some_or]
        exact Option.some.inj (hfound.symm.trans hstable)
      refine ⟨memo'.fillMultiline tag.id b, by simp [hc, hrun],
        hfills.tail (.multiline hs.find? hold (hpost b rfl)), fun a ha => .group hs.find? ?_⟩
      simpa using ha

end Keep

mutual

/-- A reading of the length finds what the memo and the tree have, and makes the length known. -/
theorem leads_readLength (limits : Thresholds) : ∀ (t : Token) {store : Store}, t.StandsIn store →
    t.readLength.Leads limits store (t.lengthIn? store.memo) fun s n => s.KnownLength t.tag.id n
  | leaf .., _, hs => leads_pure (.leaf hs.find?)
  | group _ _ _ parts, _, hs => leads_keepLength hs (leads_readLengths limits parts hs.part)
  | bracket _ frame body, _, hs => by
    rw [readLength, lengthIn?]
    refine (leads_readLength limits body hs.body).bind fun n store' _ hfills hn => leads_pure ?_
    exact .bracket (hfills.standsIn hs).find? hn
  | blank _, _, _ => leads_unmeasurable
  | foreign .., _, hs => leads_pure (.foreign hs.find?)

theorem leads_readLengths (limits : Thresholds) : ∀ (ts : List Token) {store : Store},
    (∀ t ∈ ts, t.StandsIn store) →
    (readLengths ts).Leads limits store (lengthsIn? store.memo ts)
      fun s n => s.KnownLengths (ts.map fun t => t.tag.id) n
  | [], _, _ => leads_pure .nil
  | t :: ts, store, hs => by
    have hts : ∀ u ∈ ts, u.StandsIn store := fun u hu => hs u (by simp [hu])
    rw [readLengths, lengthsIn?]
    refine (leads_readLength limits t (hs t (by simp))).bind fun n store' _ hfills hn => ?_
    rw [← lengthsIn?_congr fun u hu => hfills.lengthIn?_eq (hts u hu)]
    refine (leads_readLengths limits ts fun u hu => hfills.standsIn (hts u hu)).bind
      fun m store'' _ hfills' hm => leads_pure ?_
    exact .cons (hn.mono hfills'.keeps) hm

end

mutual

/-- A reading of the decision finds what the memo and the tree have, and makes the decision
known. -/
theorem leads_readMultiline (limits : Thresholds) : ∀ (t : Token) {store : Store},
    t.StandsIn store →
    (t.readMultiline limits).Leads limits store (t.multilineIn? limits store.memo)
      fun s b => s.KnownMultiline t.tag.id b
  | leaf .., _, hs => leads_pure (.leaf hs.find?)
  | group _ _ (some _) _, _, hs => leads_keepMultiline hs (leads_pure rfl) rfl
  | group tag commas none parts, store, hs => by
    rw [readMultiline]
    refine leads_keepMultiline hs ?_ (by rw [multilineIn?])
    refine (leads_readLength limits (group tag commas none parts) hs).bind
      fun n store' _ hfills hn => ?_
    have hcell := hn.cell (hfills.standsIn hs).find?
    have hparts : ∀ part ∈ parts, part.StandsIn store' := (hfills.standsIn hs).part
    show Leads limits store' (if limits.exceeded n parts.length then pure true else _) _ _
    by_cases hexceeded : limits.exceeded n parts.length
    · rw [if_pos hexceeded, if_pos hexceeded]
      exact leads_pure ⟨n, hcell, by simp [hexceeded]⟩
    · rw [if_neg hexceeded, if_neg hexceeded,
        ← anyMultilineIn?_congr fun part hp => hfills.multilineIn?_eq (hs.part part hp)]
      refine (leads_readAnyMultiline limits parts hparts).imp fun b store'' hfills' hb =>
        ⟨n, hfills'.keeps.length _ _ hcell, ?_⟩
      simpa [hexceeded] using hb
  | bracket _ frame body, _, hs => by
    rw [readMultiline, multilineIn?]
    refine (leads_readMultiline limits body hs.body).bind fun b store' _ hfills hb => leads_pure ?_
    exact .bracket (hfills.standsIn hs).find? hb
  | blank _, _, _ => leads_unmeasurable
  | foreign .., _, hs => leads_pure (.foreign hs.find?)

theorem leads_readAnyMultiline (limits : Thresholds) : ∀ (ts : List Token) {store : Store},
    (∀ t ∈ ts, t.StandsIn store) →
    (readAnyMultiline limits ts).Leads limits store (anyMultilineIn? limits store.memo ts)
      fun s b => s.KnownAny (ts.map fun t => t.tag.id) b
  | [], _, _ => leads_pure .nil
  | t :: ts, store, hs => by
    have hts : ∀ u ∈ ts, u.StandsIn store := fun u hu => hs u (by simp [hu])
    rw [readAnyMultiline, anyMultilineIn?]
    refine (leads_readMultiline limits t (hs t (by simp))).bind fun b store' _ hfills hb => ?_
    cases b with
    | true => exact leads_pure (.found hb)
    | false =>
      rw [← anyMultilineIn?_congr fun u hu => hfills.multilineIn?_eq (hts u hu)]
      refine (leads_readAnyMultiline limits ts fun u hu => hfills.standsIn (hts u hu)).imp
        fun c store'' hfills' hc => .next (hb.mono hfills'.keeps) hc

end

/-- Whether some tokens have both measurements, from the memo where a cell is filled and from the
tree elsewhere. -/
def measuredIn? (limits : Thresholds) (memo : Memo) : List Token → Option Unit
  | [] => some ()
  | token :: tokens => do
    let _ ← token.lengthIn? memo
    let _ ← token.multilineIn? limits memo
    measuredIn? limits memo tokens

theorem measuredIn?_congr {limits : Thresholds} {store store' : Store}
    (h : Fills limits store store') : ∀ {ts : List Token}, (∀ t ∈ ts, t.StandsIn store) →
      measuredIn? limits store'.memo ts = measuredIn? limits store.memo ts
  | [], _ => rfl
  | t :: ts, hs => by
    rw [measuredIn?, measuredIn?, h.lengthIn?_eq (hs t (by simp)),
      h.multilineIn?_eq (hs t (by simp)), measuredIn?_congr h fun u hu => hs u (by simp [hu])]

/-- Measuring makes both measurements of the tokens known. -/
theorem leads_readAll (limits : Thresholds) : ∀ (ts : List Token) {store : Store},
    (∀ t ∈ ts, t.StandsIn store) →
    (readAll limits ts).Leads limits store (measuredIn? limits store.memo ts) fun s _ =>
      ∀ t ∈ ts, (∃ n, s.KnownLength t.tag.id n) ∧ ∃ b, s.KnownMultiline t.tag.id b
  | [], _, _ => leads_pure (by simp)
  | t :: ts, store, hs => by
    rw [readAll, measuredIn?]
    refine (leads_readLength limits t (hs t (by simp))).bind fun n store₁ _ hfills₁ hn => ?_
    have hs₁ : ∀ u ∈ t :: ts, u.StandsIn store₁ := fun u hu => hfills₁.standsIn (hs u hu)
    rw [← hfills₁.multilineIn?_eq (hs t (by simp)),
      ← measuredIn?_congr hfills₁ fun u hu => hs u (by simp [hu])]
    refine (leads_readMultiline limits t (hs₁ t (by simp))).bind
      fun b store₂ _ hfills₂ hb => ?_
    rw [← measuredIn?_congr hfills₂ fun u hu => hs₁ u (by simp [hu])]
    refine (leads_readAll limits ts fun u hu => hfills₂.standsIn (hs₁ u (by simp [hu]))).imp
      fun _ store₃ hfills₃ hts u hu => ?_
    rcases List.mem_cons.1 hu with rfl | hu
    · exact ⟨⟨n, (hn.mono hfills₂.keeps).mono hfills₃.keeps⟩, b, hb.mono hfills₃.keeps⟩
    · exact hts u hu

end Token

end TokenLayout
