import TokenLayout.Attempt
import TokenLayout.Proofs.Filling

/-!
# How a store evolves

Whatever is done to a store is a sequence of changes of four kinds (`Change`): a token is made, its
marks change, a group that is not measured takes a part, or a cell is filled. `Evolves` is such a
sequence, in which decisions are taken under thresholds that are allowed. What is known stays known
(`Evolves.keeps`), and what is below a token stays in the store (`Change.closed`).

`Attempt.Leads` is how a piece of work is shown to be such a sequence. It follows an attempt step by
step through the changes it makes, also those before a fault, and says what holds of its result.
-/

namespace TokenLayout

/-! ## Attempts that make changes -/

namespace Attempt

open Relation

variable {σ τ α β : Type} {step : σ → σ → Prop} {s : σ}

/-- From `s` the attempt takes steps, whatever comes of it, and `post` holds of a value that it
gives in the state that it leaves. -/
def Leads (step : σ → σ → Prop) (s : σ) (x : Attempt σ α) (post : σ → α → Prop) : Prop :=
  ReflTransGen step s (x.run s).2 ∧ ∀ a, (x.run s).1 = .ok a → post (x.run s).2 a

variable {post : σ → α → Prop} {post' : σ → β → Prop}

theorem leads_pure {a : α} (h : post s a) : (pure a : Attempt σ α).Leads step s post :=
  ⟨.refl, fun _ ha => Except.ok.inj ha ▸ h⟩

/-- A refusal changes nothing and gives no value. -/
theorem leads_fail {fault : Fault} : (fail fault : Attempt σ α).Leads step s post :=
  ⟨.refl, fun _ ha => nomatch ha⟩

/-- Looking at the state changes nothing. -/
theorem leads_state_bind {f : σ → Attempt σ β} (h : (f s).Leads step s post') :
    (state >>= f).Leads step s post' :=
  h

/-- An update is a single step. -/
theorem leads_update {f : σ → σ} {post : σ → Unit → Prop} (hstep : step s (f s))
    (h : post (f s) ()) : (update f).Leads step s post :=
  ⟨.single hstep, fun _ _ => h⟩

/-- A result that is known beforehand leaves the state as it is. -/
theorem leads_ofExcept {result : Except Fault α} :
    (ofExcept result : Attempt σ α).Leads step s fun s' a => s' = s ∧ result = .ok a :=
  ⟨.refl, fun _ ha => ⟨rfl, ha⟩⟩

/-- A value that is asked for is the one that is there, and the state stays. -/
theorem leads_require {value : Option α} {fault : Fault} :
    (require value fault : Attempt σ α).Leads step s fun s' a => s' = s ∧ value = some a := by
  cases value with
  | none => exact leads_fail
  | some a => exact leads_pure ⟨rfl, rfl⟩

/-- Work that goes on with a value takes the steps of both parts. If the first part fails, its steps
are all that is taken. -/
theorem Leads.bind {x : Attempt σ α} {f : α → Attempt σ β} (hx : x.Leads step s post)
    (hf : ∀ a s', ReflTransGen step s s' → post s' a → (f a).Leads step s' post') :
    (x >>= f).Leads step s post' := by
  obtain ⟨hsteps, hpost⟩ := hx
  rw [Leads, run_bind]
  cases hr : x.run s with
  | mk result s' =>
    rw [hr] at hsteps hpost
    cases result with
    | error fault => exact ⟨hsteps, fun _ ha => nomatch ha⟩
    | ok a =>
      obtain ⟨hsteps', hpost'⟩ := hf a s' hsteps (hpost a rfl)
      exact ⟨hsteps.trans hsteps', hpost'⟩

/-- What holds of the value may be weakened, given the steps that led to it. -/
theorem Leads.imp {x : Attempt σ α} {post₁ : σ → α → Prop} (hx : x.Leads step s post)
    (h : ∀ a s', ReflTransGen step s s' → post s' a → post₁ s' a) : x.Leads step s post₁ :=
  ⟨hx.1, fun a ha => h a _ hx.1 (hx.2 a ha)⟩

/-- A reply that is made from a value takes no steps of its own. -/
theorem Leads.reply {x : Attempt σ α} (hx : x.Leads step s post) {f : α → β} :
    (x >>= fun a => pure (f a)).Leads step s fun _ _ => True :=
  hx.bind fun _ _ _ _ => leads_pure trivial

/-- Work under a condition takes its steps or none at all. -/
theorem Leads.when {x : Attempt σ Unit} {post : σ → Unit → Prop} {condition : Bool}
    (hx : condition = true → x.Leads step s post) (h : condition = false → post s ()) :
    (when condition x).Leads step s post := by
  cases condition
  · exact leads_pure (h rfl)
  · exact hx rfl

end Attempt

/-! ## Changes -/

/-- A change to a store, in which decisions are taken under allowed thresholds. -/
inductive Change (allowed : Thresholds → Prop) : Store → Store → Prop
  /-- A token is made, of tokens that are there. -/
  | make {store : Store} {entry : Entry}
      (hbelow : ∀ id ∈ entry.node.below, id < store.entries.size) :
      Change allowed store { store with entries := store.entries.push entry }
  | mark {store : Store} (id : TokenId) (f : Marks → Marks) :
      Change allowed store (store.modify id fun entry => { entry with marks := f entry.marks })
  /-- A group takes a part. -/
  | attach {store : Store} {group part : TokenId}
      (hopen : (store.memo.get group).measured = false) (hpart : part < store.entries.size) :
      Change allowed store
        (store.modify group fun entry => { entry with node := entry.node.append part })
  | fill {store store' : Store} {limits : Thresholds} (hlimits : allowed limits)
      (hfill : Fill limits store store') : Change allowed store store'

/-- A store becomes another by changes. -/
abbrev Evolves (allowed : Thresholds → Prop) : Store → Store → Prop :=
  Relation.ReflTransGen (Change allowed)

namespace Store

variable (store : Store)

/-- A new token gets the next number, and all others stay. -/
theorem find?_push (entry : Entry) (id : TokenId) :
    ({ store with entries := store.entries.push entry } : Store).find? id =
      if id = store.entries.size then some entry else store.find? id := by
  simp [find?, Array.getElem?_push]

/-- Only the entry of the token that is changed is another one. -/
theorem find?_modify (id other : TokenId) (f : Entry → Entry) :
    (store.modify id f).find? other =
      if id = other then (store.find? other).map f else store.find? other := by
  simp [find?, modify, Array.getElem?_modify]

/-- Numbers from the size of the store on are not in use. -/
theorem find?_eq_none_of_size_le {id : TokenId} (h : store.entries.size ≤ id) :
    store.find? id = none :=
  Array.getElem?_eq_none h

end Store

/-- Only a group takes a part, and nothing leaves it. -/
theorem Node.mem_below_append {node : Node} {part child : TokenId} :
    child ∈ (node.append part).below ↔ child ∈ node.below ∨ node.kind = .group ∧ child = part := by
  cases node with
  | leaf role text => simp [append, below, kind_leaf_ne_group]
  | group => simp [append, below, kind]
  | bracket => simp [append, below, kind]
  | blank => simp [append, below, kind]
  | foreign => simp [append, below, kind]

namespace Change

variable {allowed : Thresholds → Prop} {store store' : Store}

theorem mono {allowed' : Thresholds → Prop} (himp : ∀ limits, allowed limits → allowed' limits)
    (h : Change allowed store store') : Change allowed' store store' := by
  cases h with
  | make hbelow => exact .make hbelow
  | mark id f => exact .mark id f
  | attach hopen hpart => exact .attach hopen hpart
  | fill hlimits hfill => exact .fill (himp _ hlimits) hfill

theorem size_le (h : Change allowed store store') : store.entries.size ≤ store'.entries.size := by
  cases h with
  | make => simp
  | mark => simp [Store.modify]
  | attach => simp [Store.modify]
  | fill _ hfill => rw [hfill.entries_eq]

/-- Content that takes no parts stays as it is, and what takes parts is a group that is open. -/
theorem keeps (h : Change allowed store store') : store.Keeps store' := by
  cases h with
  | @make entry hbelow =>
    refine ⟨fun _ _ h => h, fun _ _ h => h, fun id marks node hid _ => ⟨marks, ?_⟩⟩
    have hne : id ≠ store.entries.size := by
      rintro rfl
      rw [store.find?_eq_none_of_size_le le_rfl] at hid
      exact nomatch hid
    rw [Store.find?_push, if_neg hne, hid]
  | mark id f =>
    refine ⟨fun _ _ h => h, fun _ _ h => h, fun other marks node hid _ => ?_⟩
    by_cases heq : id = other
    · exact ⟨f marks, by simp [Store.find?_modify, heq, hid]⟩
    · exact ⟨marks, by simp [Store.find?_modify, heq, hid]⟩
  | @attach group part hopen hpart =>
    refine ⟨fun _ _ h => h, fun _ _ h => h, fun other marks node hid hm => ⟨marks, ?_⟩⟩
    by_cases heq : group = other
    · subst heq
      have hnode : node.append part = node := by
        cases node <;> simp_all [Node.append, Node.kind]
      simp [Store.find?_modify, hid, hnode]
    · simp [Store.find?_modify, heq, hid]
  | fill _ hfill => exact hfill.keeps

/-- What is below a token stays in the store. -/
theorem closed (h : Change allowed store store') (hclosed : store.Closed) : store'.Closed := by
  rintro parent child ⟨entry, hentry, hchild⟩
  cases h with
  | @make made hbelow =>
    rw [Store.find?_push] at hentry
    suffices hlt : child < store.entries.size by
      rw [Array.size_push]
      exact Nat.lt_succ_of_lt hlt
    split at hentry
    · obtain rfl := Option.some.inj hentry
      exact hbelow child hchild
    · exact hclosed parent child ⟨entry, hentry, hchild⟩
  | mark id f =>
    rw [Store.find?_modify] at hentry
    rw [Store.modify, Array.size_modify]
    split at hentry
    · obtain ⟨old, hold, rfl⟩ := Option.map_eq_some_iff.1 hentry
      exact hclosed parent child ⟨old, hold, hchild⟩
    · exact hclosed parent child ⟨entry, hentry, hchild⟩
  | @attach group part hopen hpart =>
    rw [Store.find?_modify] at hentry
    rw [Store.modify, Array.size_modify]
    split at hentry
    · obtain ⟨old, hold, rfl⟩ := Option.map_eq_some_iff.1 hentry
      rcases Node.mem_below_append.1 hchild with hchild | ⟨-, rfl⟩
      · exact hclosed parent child ⟨old, hold, hchild⟩
      · exact hpart
    · exact hclosed parent child ⟨entry, hentry, hchild⟩
  | fill _ hfill =>
    rw [hfill.entries_eq]
    rw [Store.find?, hfill.entries_eq] at hentry
    exact hclosed parent child ⟨entry, hentry, hchild⟩

end Change

namespace Evolves

variable {allowed : Thresholds → Prop} {store store' : Store}

theorem size_le (h : Evolves allowed store store') :
    store.entries.size ≤ store'.entries.size := by
  induction h with
  | refl => exact le_rfl
  | tail _ hc ih => exact ih.trans hc.size_le

theorem keeps (h : Evolves allowed store store') : store.Keeps store' := by
  induction h with
  | refl => exact .refl store
  | tail _ hc ih => exact ih.trans hc.keeps

theorem mono {allowed' : Thresholds → Prop} (himp : ∀ limits, allowed limits → allowed' limits)
    (h : Evolves allowed store store') : Evolves allowed' store store' :=
  Relation.ReflTransGen.mono (fun _ _ hc => hc.mono himp) _ _ h

/-- Measuring under allowed thresholds is a sequence of changes. -/
theorem of_fills {limits : Thresholds} (hlimits : allowed limits)
    (h : Fills limits store store') : Evolves allowed store store' :=
  Relation.ReflTransGen.mono (fun _ _ hfill => Change.fill hlimits hfill) _ _ h

end Evolves

end TokenLayout
