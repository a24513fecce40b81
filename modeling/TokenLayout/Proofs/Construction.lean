import TokenLayout.Proofs.Evolution
import TokenLayout.Recipe

/-!
# Making tokens changes a store step by step

Whatever makes tokens makes changes to a store, one after the other, up to the fault that ends it if
there is one: the single tokens, the ten shapes of expressions, and recipes (`Recipe.leads_build`).
What comes of it is a token of the store, given that what it is made from is.
-/

namespace TokenLayout

/-! ## Values that are there -/

/-- There is a token of this number. -/
def Store.Has (store : Store) (id : TokenId) : Prop :=
  id < store.entries.size

/-- If the value is a token, it is one of the store. -/
def Arg.ValidIn (store : Store) : Arg → Prop
  | .token id => store.Has id
  | .datum _ => True

/-- All items are valid. -/
def Listing.ValidIn (store : Store) : Listing Arg → Prop
  | .each items => ∀ arg ∈ items, arg.ValidIn store
  | .stray _ => True

theorem Store.Has.valid {store : Store} {id : TokenId} (h : store.Has id) :
    (Arg.token id).ValidIn store :=
  h

section Mono

variable {allowed : Thresholds → Prop} {store store' : Store}

/-- A token that is there stays there. -/
theorem Store.Has.mono {id : TokenId} (h : store.Has id) (he : Evolves allowed store store') :
    store'.Has id :=
  h.trans_le he.size_le

/-- A value that can be used can still be used later on. -/
theorem Arg.ValidIn.mono {arg : Arg} (h : arg.ValidIn store) (he : Evolves allowed store store') :
    arg.ValidIn store' := by
  cases arg with
  | token id => exact Store.Has.mono h he
  | datum value => trivial

theorem Listing.ValidIn.mono {listing : Listing Arg} (h : listing.ValidIn store)
    (he : Evolves allowed store store') : listing.ValidIn store' := by
  cases listing with
  | each items => exact fun arg harg => (h arg harg).mono he
  | stray value => trivial

end Mono

/-! ## Making tokens -/

namespace Build

open Attempt

variable {allowed : Thresholds → Prop} {store : Store}

/-- A token that is made of tokens that are there is one of the store from then on. -/
theorem leads_make {marks : Marks} {node : Node} (h : ∀ id ∈ node.below, store.Has id) :
    (make marks node).Leads (Change allowed) store fun s id => s.Has id := by
  refine ⟨.single (.make h), fun id hid => ?_⟩
  obtain rfl := Except.ok.inj hid
  simp [make, run_bind, Store.Has]

/-- Marking a token measures nothing and makes no token. -/
theorem leads_mark (id : TokenId) (f : Marks → Marks) :
    (mark id f).Leads (Change allowed) store fun s _ =>
      s.memo = store.memo ∧ s.entries.size = store.entries.size :=
  leads_update (.mark id f) ⟨rfl, by simp [Store.modify]⟩

theorem leads_kindOf (arg : Arg) :
    (kindOf arg).Leads (Change allowed) store fun _ _ => True := by
  cases arg with
  | token id => exact leads_state_bind (leads_pure trivial)
  | datum value => exact leads_pure trivial

theorem leads_checkInset (kind : Kind) (arg : Arg) :
    (checkInset kind arg).Leads (Change allowed) store fun _ _ => True := by
  unfold checkInset
  split
  · split
    · exact leads_fail
    · exact leads_pure trivial
  · exact (leads_kindOf _).bind fun _ _ _ _ => leads_fail

theorem leads_checkMarks (kind : Kind) (request : MarkRequest) :
    (checkMarks kind request).Leads (Change allowed) store fun _ _ => True :=
  (leads_checkInset kind _).bind fun _ _ _ _ => leads_pure trivial

/-- What a listing runs through is valid, also the pieces of a plain value. -/
theorem leads_items {listing : Listing Arg} (h : listing.ValidIn store)
    (refuse : ValueKind → Fault) :
    (items listing refuse).Leads (Change allowed) store
      fun s args => ∀ arg ∈ args, arg.ValidIn s := by
  unfold items
  split
  · exact leads_pure h
  · refine leads_pure fun arg harg => ?_
    obtain ⟨c, -, rfl⟩ := List.mem_map.1 harg
    trivial
  · refine leads_pure fun arg harg => ?_
    obtain ⟨value, -, rfl⟩ := List.mem_map.1 harg
    trivial
  · refine leads_pure fun arg harg => ?_
    obtain ⟨entry, -, rfl⟩ := List.mem_map.1 harg
    trivial
  · exact leads_fail

theorem leads_word (s : String) (marks : Marks) :
    (word s marks).Leads (Change allowed) store fun s id => s.Has id :=
  leads_make (by simp [Node.below])

/-- Whatever its text and marks are asked to be, a leaf that is made is a token of the store. -/
theorem leads_leaf (text : Arg) (request : MarkRequest) :
    (leaf text request).Leads (Change allowed) store fun s id => s.Has id := by
  unfold leaf
  split
  · exact (leads_checkMarks _ _).bind fun _ _ _ _ => leads_word _ _
  · exact (leads_kindOf _).bind fun _ _ _ _ => leads_fail

theorem leads_separator (request : MarkRequest) :
    (separator request).Leads (Change allowed) store fun s id => s.Has id :=
  (leads_checkMarks _ _).bind fun _ _ _ _ => leads_make (by simp [Node.below])

/-- Only a group that is not measured takes a part. -/
theorem leads_attach {group part : TokenId} (hopen : (store.memo.get group).measured = false)
    (hpart : store.Has part) :
    (attach group part).Leads (Change allowed) store fun _ _ => True := by
  refine leads_state_bind ?_
  refine (Leads.when (fun _ => leads_mark part _) fun _ => ⟨rfl, rfl⟩).bind
    fun _ store' _ ⟨hmemo, hsize⟩ => ?_
  exact leads_update (.attach (by rw [hmemo]; exact hopen) (by rw [hsize]; exact hpart)) trivial

/-- Only changes come of offering a valid part to a group, also if the group refuses it. -/
theorem leads_add (group : TokenId) {part : Arg} (hpart : part.ValidIn store) :
    (add group part).Leads (Change allowed) store fun _ _ => True := by
  unfold add
  split
  · exact leads_pure trivial
  · exact leads_fail
  · refine leads_state_bind ?_
    split
    · exact leads_fail
    · rename_i hopen
      exact leads_attach (by simpa using hopen) hpart

/-- Parts are added by changes, also those before one that is refused. -/
theorem leads_addAll (group : TokenId) : ∀ (parts : List Arg) {store : Store},
    (∀ part ∈ parts, part.ValidIn store) →
      (addAll group parts).Leads (Change allowed) store fun _ _ => True
  | [], _, _ => leads_pure trivial
  | part :: parts, _, h =>
    (leads_add group (h part (by simp))).bind fun _ _ he _ =>
      leads_addAll group parts fun p hp => (h p (by simp [hp])).mono he

/-- A text is added by changes, also if a leaf is made for it that the group then refuses. -/
theorem leads_addText (group : TokenId) (text : Arg) (request : MarkRequest) :
    (addText group text request).Leads (Change allowed) store fun _ _ => True :=
  (leads_leaf text request).bind fun _ _ _ hpart => leads_add group hpart

/-- A group of valid parts is a token of the store. -/
theorem leads_groupOf {parts : List Arg} (h : ∀ part ∈ parts, part.ValidIn store)
    {commas : Bool} {forced : Option Bool} {marks : Marks} :
    (groupOf parts commas forced marks).Leads (Change allowed) store fun s id => s.Has id :=
  (leads_make (by simp [Node.below])).bind fun group _ he hgroup =>
    (leads_addAll group parts fun p hp => (h p hp).mono he).bind fun _ _ he' _ =>
      leads_pure (hgroup.mono he')

/-- So is one whose parts have to be run through first. -/
theorem leads_group {parts : Listing Arg} (h : parts.ValidIn store) (commas : Bool)
    (forced : Option Bool) (request : MarkRequest) :
    (group parts commas forced request).Leads (Change allowed) store fun s id => s.Has id :=
  (leads_checkMarks _ _).bind fun _ _ he _ =>
    (leads_items (h.mono he) _).bind fun _ _ _ hparts => leads_groupOf hparts

/-- A bracket round a valid body is a token of the store, whatever stands for its delimiters. -/
theorem leads_bracket (opening closing : Arg) {body : Arg} (h : body.ValidIn store)
    (bareSingle ownLine : Bool) (request : MarkRequest) :
    (bracket opening closing body bareSingle ownLine request).Leads (Change allowed) store
      fun s id => s.Has id := by
  unfold bracket
  split
  · exact leads_fail
  · exact leads_fail
  · split
    · exact (leads_checkMarks _ _).bind fun _ _ he _ =>
        leads_make (by simpa [Node.below] using Store.Has.mono h he)
    · exact leads_fail

theorem leads_bracketOf {opening closing : String} {body : Arg} (h : body.ValidIn store)
    {bareSingle ownLine : Bool} :
    (bracketOf opening closing body bareSingle ownLine).Leads (Change allowed) store
      fun s id => s.Has id :=
  leads_bracket _ _ h _ _ _

theorem leads_blank (request : MarkRequest) :
    (blank request).Leads (Change allowed) store fun s id => s.Has id :=
  (leads_checkMarks _ _).bind fun _ _ _ _ => leads_make (by simp [Node.below])

theorem leads_foreign (length : Int) (multiline : Bool) (request : MarkRequest) :
    (foreign length multiline request).Leads (Change allowed) store fun s id => s.Has id :=
  (leads_checkMarks _ _).bind fun _ _ _ _ => leads_make (by simp [Node.below])

/-! ## Shapes

A shape over valid parts is built by changes, and what comes of it is a token of the store. -/

/-- A part of a shape is valid if what it is made from is. -/
theorem leads_part {arg : Arg} (h : arg.ValidIn store) :
    (part arg).Leads (Change allowed) store fun s arg => arg.ValidIn s := by
  unfold part
  split
  · exact (leads_word _ _).bind fun _ _ _ hid => leads_pure hid
  · exact leads_pure h

theorem leads_parts : ∀ (args : List Arg) {store : Store}, (∀ arg ∈ args, arg.ValidIn store) →
    (parts args).Leads (Change allowed) store fun s args => ∀ arg ∈ args, arg.ValidIn s
  | [], _, _ => leads_pure (by simp)
  | arg :: args, _, h => by
    rw [parts]
    refine (leads_part (h arg (by simp))).bind fun first _ he hfirst => ?_
    refine (leads_parts args fun a ha => (h a (by simp [ha])).mono he).bind
      fun rest _ he' hrest => leads_pure ?_
    intro a ha
    rcases List.mem_cons.1 ha with rfl | ha
    · exact hfirst.mono he'
    · exact hrest a ha

/-- A part that is marked stays valid. -/
theorem leads_hanging {arg : Arg} (h : arg.ValidIn store) :
    (hanging arg).Leads (Change allowed) store fun s arg => arg.ValidIn s := by
  refine (leads_part h).bind fun arg _ _ harg => ?_
  cases arg with
  | token id => exact (leads_mark id _).bind fun _ _ he _ => leads_pure (Store.Has.mono harg he)
  | datum value => exact leads_fail

/-- A list of valid items is valid. -/
theorem leads_list {args : Listing Arg} (h : args.ValidIn store) {inset : Nat}
    {forced : Option Bool} :
    (list args inset forced).Leads (Change allowed) store fun s arg => arg.ValidIn s :=
  (leads_items h _).bind fun args _ _ hargs => (leads_parts args hargs).bind
    fun _ _ _ hparts => (leads_groupOf hparts).bind fun _ _ _ hid => leads_pure hid

theorem leads_memberName (name : String) :
    (memberName name).Leads (Change allowed) store fun s arg => arg.ValidIn s :=
  (leads_word _ _).bind fun _ _ _ hid => leads_pure hid

theorem leads_binary {left right : Arg} (hleft : left.ValidIn store) (operator : String)
    (hright : right.ValidIn store) :
    (binary left operator right).Leads (Change allowed) store fun s id => s.Has id := by
  refine (leads_hanging hright).bind fun right _ he₁ hright => ?_
  refine (leads_part (hleft.mono he₁)).bind fun left _ he₂ hleft => ?_
  refine (leads_word _ _).bind fun word _ he₃ hword => ?_
  refine Leads.bind (leads_groupOf ?_) fun _ _ _ hbody => leads_bracketOf hbody.valid
  simpa using ⟨hleft.mono he₃, hword, (hright.mono he₂).mono he₃⟩

theorem leads_prefixed (operator : String) {operand : Arg} (h : operand.ValidIn store) :
    (prefixed operator operand).Leads (Change allowed) store fun s id => s.Has id := by
  refine (leads_word _ _).bind fun word _ he₁ hword => ?_
  refine (leads_part (h.mono he₁)).bind fun operand _ he₂ hoperand => ?_
  refine (leads_bracketOf hoperand).bind fun bracket _ he₃ hbracket => leads_groupOf ?_
  simpa using ⟨(hword.mono he₂).mono he₃, hbracket⟩

theorem leads_call {callee : Arg} (hcallee : callee.ValidIn store) {args : Listing Arg}
    (hargs : args.ValidIn store) :
    (call callee args).Leads (Change allowed) store fun s id => s.Has id := by
  refine (leads_part hcallee).bind fun callee _ he₁ hcallee => ?_
  refine (leads_list (hargs.mono he₁)).bind fun args _ he₂ hargs => ?_
  refine (leads_bracketOf hargs).bind fun bracket _ he₃ hbracket => leads_groupOf ?_
  simpa using ⟨(hcallee.mono he₂).mono he₃, hbracket.valid⟩

theorem leads_methodCall {target : Arg} (htarget : target.ValidIn store) (name : String)
    {args : Listing Arg} (hargs : args.ValidIn store) :
    (methodCall target name args).Leads (Change allowed) store fun s id => s.Has id := by
  refine (leads_part htarget).bind fun target _ he₁ htarget => ?_
  refine (leads_memberName name).bind fun name _ he₂ hname => ?_
  refine (leads_list ((hargs.mono he₁).mono he₂)).bind fun args _ he₃ hargs => ?_
  refine (leads_bracketOf hargs).bind fun bracket _ he₄ hbracket => leads_groupOf ?_
  simpa using ⟨((htarget.mono he₂).mono he₃).mono he₄, (hname.mono he₃).mono he₄, hbracket.valid⟩

theorem leads_member {target : Arg} (h : target.ValidIn store) (name : String) :
    (member target name).Leads (Change allowed) store fun s id => s.Has id := by
  refine (leads_part h).bind fun target _ _ htarget => ?_
  refine (leads_memberName name).bind fun name _ he hname => leads_groupOf ?_
  simpa using ⟨htarget.mono he, hname⟩

theorem leads_index {target : Arg} (htarget : target.ValidIn store) {indices : Listing Arg}
    (hindices : indices.ValidIn store) :
    (index target indices).Leads (Change allowed) store fun s id => s.Has id := by
  refine (leads_items hindices _).bind fun indices _ he₁ hindices => ?_
  refine (leads_part (htarget.mono he₁)).bind fun target _ he₂ htarget => ?_
  have hlist : (Listing.each indices).ValidIn _ := fun arg harg => (hindices arg harg).mono he₂
  refine (leads_list hlist).bind fun list _ he₃ hlist => ?_
  refine (leads_bracketOf hlist).bind fun bracket _ he₄ hbracket => leads_groupOf ?_
  simpa using ⟨(htarget.mono he₃).mono he₄, hbracket.valid⟩

theorem leads_conditional {test ifTrue ifFalse : Arg} (htest : test.ValidIn store)
    (htrue : ifTrue.ValidIn store) (hfalse : ifFalse.ValidIn store) :
    (conditional test ifTrue ifFalse).Leads (Change allowed) store fun s id => s.Has id := by
  refine (leads_part htest).bind fun test _ he₁ htest => ?_
  refine (leads_word _ _).bind fun question _ he₂ hquestion => ?_
  refine (leads_part ((htrue.mono he₁).mono he₂)).bind fun ifTrue _ he₃ htrue => ?_
  refine (leads_word _ _).bind fun colon _ he₄ hcolon => ?_
  have he := ((he₁.trans he₂).trans he₃).trans he₄
  refine (leads_part (hfalse.mono he)).bind fun ifFalse _ he₅ hfalse => leads_groupOf ?_
  have he₃₅ := (he₃.trans he₄).trans he₅
  simpa using ⟨(htest.mono he₂).mono he₃₅, (hquestion.mono he₃₅).valid,
    htrue.mono (he₄.trans he₅), (hcolon.mono he₅).valid, hfalse⟩

/-- Parameters and operator may be such that they cannot be joined. -/
theorem leads_arrow (parameters : Datum) {body : Arg} (h : body.ValidIn store)
    (operator : Datum) :
    (arrow parameters body operator).Leads (Change allowed) store fun s id => s.Has id := by
  refine (leads_hanging h).bind fun body _ _ hbody => ?_
  refine leads_ofExcept.bind fun text _ he₁ _ => ?_
  refine (leads_leaf _ _).bind fun head _ he₂ hhead => leads_groupOf ?_
  simpa using ⟨hhead.valid, (hbody.mono he₁).mono he₂⟩

/-- The head may be missing, which is a plain value and so a valid one. -/
theorem leads_initializer {head : Arg} (hhead : head.ValidIn store) {args : Listing Arg}
    (hargs : args.ValidIn store) :
    (initializer head args).Leads (Change allowed) store fun s id => s.Has id := by
  refine (leads_list hargs).bind fun block _ he₁ hblock => ?_
  refine (leads_part (hhead.mono he₁)).bind fun head _ he₂ hhead => ?_
  refine (leads_bracketOf (hblock.mono he₂)).bind fun bracket _ he₃ hbracket => leads_groupOf ?_
  simpa using ⟨hhead.mono he₃, hbracket.valid⟩

/-- The delimiters may be anything: if they are refused, the items were made by changes. -/
theorem leads_sequence (opening closing : Arg) {args : Listing Arg} (h : args.ValidIn store) :
    (sequence opening closing args).Leads (Change allowed) store fun s id => s.Has id :=
  (leads_list h).bind fun _ _ _ hargs => leads_bracket opening closing hargs _ _ _

end Build

/-! ## Recipes -/

/-- The names are bound to what is there. -/
def Names.ValidIn (store : Store) (names : Names) : Prop :=
  ∀ name arg, names.lookup name = some arg → arg.ValidIn store

/-- Names stay bound to tokens that are there. -/
theorem Names.ValidIn.mono {allowed : Thresholds → Prop} {store store' : Store} {names : Names}
    (h : names.ValidIn store) (he : Evolves allowed store store') : names.ValidIn store' :=
  fun name arg harg => (h name arg harg).mono he

namespace Recipe

open Attempt Build

variable {allowed : Thresholds → Prop} {names : Names}

/-- What was made is handed on as a token. -/
theorem leads_token {store : Store} {x : Build TokenId}
    (h : x.Leads (Change allowed) store fun s id => s.Has id) :
    (do return Arg.token (← x)).Leads (Change allowed) store fun s arg => arg.ValidIn s :=
  h.bind fun _ _ _ hid => leads_pure hid

mutual

/-- A recipe is followed by changes, and makes a token of the store or gives a plain value. -/
theorem leads_build : ∀ (recipe : Recipe) {store : Store}, names.ValidIn store →
    (recipe.build names).Leads (Change allowed) store fun s arg => arg.ValidIn s
  | datum _, _, _ => leads_pure trivial
  | named name, _, h => leads_require.imp fun arg _ _ ⟨hs, harg⟩ => hs ▸ h name arg harg
  | leaf text request, _, h =>
    (leads_build text h).bind fun text _ _ _ => leads_token (leads_leaf text request)
  | separator request, _, _ => leads_token (leads_separator request)
  | group parts commas forced request, _, h =>
    (leads_buildListing parts h).bind fun _ _ _ hparts =>
      leads_token (leads_group hparts commas forced request)
  | bracket body opening closing _ _ request, _, h =>
    (leads_build body h).bind fun _ _ he₁ hbody =>
    (leads_build opening (h.mono he₁)).bind fun opening _ he₂ _ =>
    (leads_build closing (h.mono (he₁.trans he₂))).bind fun closing _ he₃ _ =>
      leads_token (leads_bracket opening closing (hbody.mono (he₂.trans he₃)) _ _ request)
  | blank request, _, _ => leads_token (leads_blank request)
  | foreign length multiline request, _, _ => leads_token (leads_foreign length multiline request)
  | binary left operator right, _, h =>
    (leads_build left h).bind fun _ _ he₁ hleft =>
    (leads_build right (h.mono he₁)).bind fun _ _ he₂ hright =>
      leads_token (leads_binary (hleft.mono he₂) operator hright)
  | prefixed operator operand, _, h =>
    (leads_build operand h).bind fun _ _ _ hoperand =>
      leads_token (leads_prefixed operator hoperand)
  | call callee args, _, h =>
    (leads_build callee h).bind fun _ _ he₁ hcallee =>
    (leads_buildListing args (h.mono he₁)).bind fun _ _ he₂ hargs =>
      leads_token (leads_call (hcallee.mono he₂) hargs)
  | methodCall target name args, _, h =>
    (leads_build target h).bind fun _ _ he₁ htarget =>
    (leads_buildListing args (h.mono he₁)).bind fun _ _ he₂ hargs =>
      leads_token (leads_methodCall (htarget.mono he₂) name hargs)
  | member target name, _, h =>
    (leads_build target h).bind fun _ _ _ htarget => leads_token (leads_member htarget name)
  | index target indices, _, h =>
    (leads_build target h).bind fun _ _ he₁ htarget =>
    (leads_buildListing indices (h.mono he₁)).bind fun _ _ he₂ hindices =>
      leads_token (leads_index (htarget.mono he₂) hindices)
  | conditional test ifTrue ifFalse, _, h =>
    (leads_build test h).bind fun _ _ he₁ htest =>
    (leads_build ifTrue (h.mono he₁)).bind fun _ _ he₂ htrue =>
    (leads_build ifFalse (h.mono (he₁.trans he₂))).bind fun _ _ he₃ hfalse =>
      leads_token (leads_conditional (htest.mono (he₂.trans he₃)) (htrue.mono he₃) hfalse)
  | arrow parameters body operator, _, h =>
    (leads_build body h).bind fun _ _ _ hbody =>
      leads_token (leads_arrow parameters hbody operator)
  | initializer head items, _, h =>
    (leads_build head h).bind fun _ _ he₁ hhead =>
    (leads_buildListing items (h.mono he₁)).bind fun _ _ he₂ hitems =>
      leads_token (leads_initializer (hhead.mono he₂) hitems)
  | sequence opening closing items, _, h =>
    (leads_build opening h).bind fun opening _ he₁ _ =>
    (leads_build closing (h.mono he₁)).bind fun closing _ he₂ _ =>
    (leads_buildListing items (h.mono (he₁.trans he₂))).bind fun _ _ _ hitems =>
      leads_token (leads_sequence opening closing hitems)

/-- What a listing of recipes makes is valid. -/
theorem leads_buildListing : ∀ (listing : Listing Recipe) {store : Store}, names.ValidIn store →
    (buildListing names listing).Leads (Change allowed) store fun s listing => listing.ValidIn s
  | .each recipes, _, h => (leads_buildAll recipes h).bind fun _ _ _ hargs => leads_pure hargs
  | .stray _, _, _ => leads_pure trivial

/-- What a list of recipes makes is valid. -/
theorem leads_buildAll : ∀ (recipes : List Recipe) {store : Store}, names.ValidIn store →
    (buildAll names recipes).Leads (Change allowed) store
      fun s args => ∀ arg ∈ args, arg.ValidIn s
  | [], _, _ => leads_pure (by simp)
  | recipe :: recipes, _, h =>
    (leads_build recipe h).bind fun _ _ he₁ hfirst =>
    (leads_buildAll recipes (h.mono he₁)).bind fun _ _ he₂ hrest => leads_pure fun arg harg =>
      (List.mem_cons.1 harg).elim (fun heq => heq ▸ hfirst.mono he₂) (hrest arg)

end

end Recipe

end TokenLayout
