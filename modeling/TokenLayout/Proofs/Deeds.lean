import TokenLayout.Proofs.Construction
import TokenLayout.Proofs.Planning
import TokenLayout.Script

/-!
# What a step does

A step of a script does deeds of four kinds (`Session.Deed`): it works on the store, binds a name,
assigns a property of a token, or takes a renderer. None of them touches the settings that are
active. Two steps set these, and what is done under settings of its own puts them back
(`Action.run_under`).

`Step.ends_run` says so of every step, also of one that stops with a fault and of the steps in
blocks and threads. What else is known of the steps of a session follows from its deeds, on terms
that depend on what is asked (`Session.Terms`).
-/

namespace TokenLayout

/-! ## Looking at tokens -/

namespace Build

open Attempt

variable {allowed : Thresholds → Prop} {limits : Thresholds} {store : Store}

/-- Looking up a tree changes nothing, and the tree stands in the store. -/
theorem leads_tree (id : TokenId) :
    (tree id).Leads (Change allowed) store fun s t =>
      s = store ∧ store.tree? id = some t ∧ t.StandsIn s :=
  leads_state_bind <| leads_require.imp fun _ _ _ ⟨hs, ht⟩ =>
    ⟨hs, ht, hs ▸ (Store.standsIn_of_tree? ht).2⟩

/-- Cells are filled by changes, also by a reading that comes to nothing. -/
theorem leads_reading {α : Type} {x : Reading α} {value : Option α} {post : Store → α → Prop}
    (hlimits : allowed limits) (hx : x.Leads limits store value post) :
    (reading x).Leads (Change allowed) store post := by
  obtain ⟨memo, hrun, hfills, hpost⟩ := hx
  simp only [Leads, reading, hrun]
  cases value with
  | none => exact ⟨Evolves.of_fills hlimits hfills, by simp⟩
  | some a =>
    exact ⟨Evolves.of_fills hlimits hfills, fun b hb => hpost b (by rw [Except.ok.inj hb])⟩

/-- A reading fills cells and leaves the tokens alone. -/
theorem entries_reading {α : Type} (x : Reading α) (store : Store) :
    ((reading x).run store).2.entries = store.entries := by
  simp only [reading]
  split <;> rfl

/-- A length that is read is known from then on. -/
theorem known_length {id : TokenId} {t : Token} (ht : store.tree? id = some t) {n : Int}
    (hok : ((length id).run store).1 = .ok n) :
    let after := ((length id).run store).2
    after.entries = store.entries ∧ Evolves (fun _ => True) store after ∧
      after.KnownLength id n := by
  obtain ⟨rfl, hs⟩ := Store.standsIn_of_tree? ht
  have hleads : (reading t.readLength).Leads (Change fun _ => True) store
      fun s n => s.KnownLength t.tag.id n :=
    leads_reading trivial (t.leads_readLength {} hs)
  have hrun : (length t.tag.id).run store = (reading t.readLength).run store := by
    rw [length, run_bind, run_tree ht]
  rw [hrun] at hok ⊢
  exact ⟨entries_reading _ store, hleads.1, hleads.2 n hok⟩

/-- A decision that is read is known from then on. -/
theorem known_multiline {id : TokenId} {t : Token} (ht : store.tree? id = some t) {b : Bool}
    (hok : ((multiline limits id).run store).1 = .ok b) :
    let after := ((multiline limits id).run store).2
    after.entries = store.entries ∧ Evolves (fun _ => True) store after ∧
      after.KnownMultiline id b := by
  obtain ⟨rfl, hs⟩ := Store.standsIn_of_tree? ht
  have hleads : (reading (t.readMultiline limits)).Leads (Change fun _ => True) store
      fun s b => s.KnownMultiline t.tag.id b :=
    leads_reading trivial (t.leads_readMultiline limits hs)
  have hrun : (multiline limits t.tag.id).run store =
      (reading (t.readMultiline limits)).run store := by
    rw [multiline, run_bind, run_tree ht]
  rw [hrun] at hok ⊢
  exact ⟨entries_reading _ store, hleads.1, hleads.2 b hok⟩

theorem leads_length (hlimits : allowed limits) (id : TokenId) :
    (length id).Leads (Change allowed) store fun _ _ => True :=
  (leads_tree id).bind fun t _ _ ⟨_, _, hs⟩ =>
    (leads_reading hlimits (t.leads_readLength limits hs)).imp fun _ _ _ _ => trivial

theorem leads_multiline (hlimits : allowed limits) (id : TokenId) :
    (multiline limits id).Leads (Change allowed) store fun _ _ => True :=
  (leads_tree id).bind fun t _ _ ⟨_, _, hs⟩ =>
    (leads_reading hlimits (t.leads_readMultiline limits hs)).imp fun _ _ _ _ => trivial

theorem leads_walk (root : Arg) : (walk root).Leads (Change allowed) store fun _ _ => True := by
  cases root with
  | token id => exact (leads_tree id).bind fun _ _ _ _ => leads_pure trivial
  | datum value => exact leads_pure trivial

theorem leads_measure (hlimits : allowed limits) (root : Arg) :
    (measure limits root).Leads (Change allowed) store fun _ _ => True := by
  cases root with
  | datum value => exact leads_fail
  | token id =>
    refine (leads_tree id).bind fun t s _ ⟨_, _, hs⟩ => ?_
    have hwalk : ∀ u ∈ t.walk.reverse, u.StandsIn s := by
      intro u hu
      rw [List.mem_reverse, Token.walk_eq_preorder] at hu
      exact hs.below hu
    exact (leads_reading hlimits (Token.leads_readAll limits _ hwalk)).imp
      fun _ _ _ _ => trivial

theorem leads_render {settings : Settings} (hsettings : allowed settings.toThresholds)
    (root : Arg) : (render settings root).Leads (Change allowed) store fun _ _ => True := by
  cases root with
  | datum value => exact leads_fail
  | token id =>
    exact (leads_tree id).bind fun t s _ ⟨_, _, hs⟩ =>
      ⟨Evolves.of_fills hsettings (Token.fills_write hs 0 _), fun _ _ => trivial⟩

theorem leads_reports (id : TokenId) :
    (reports id).Leads (Change allowed) store fun _ _ => True :=
  (leads_tree id).bind fun _ _ _ _ => leads_state_bind (leads_pure trivial)

theorem leads_describe? (root : Arg) :
    (describe? root).Leads (Change allowed) store fun _ _ => True := by
  cases root with
  | token id => exact (leads_tree id).bind fun _ _ _ _ => leads_pure trivial
  | datum value => exact leads_pure trivial

theorem leads_bare (id : TokenId) : (bare id).Leads (Change allowed) store fun _ _ => True := by
  refine (leads_tree id).bind fun t _ _ _ => ?_
  cases t <;> exact leads_pure trivial

theorem leads_getProperty (hlimits : allowed limits) (id : TokenId) (name : String) :
    (getProperty limits id name).Leads (Change allowed) store fun _ _ => True := by
  refine leads_state_bind (leads_require.bind fun entry _ _ _ => ?_)
  split
  case h_3 => exact (leads_length hlimits id).bind fun _ _ _ _ => leads_pure trivial
  case h_4 => exact (leads_multiline hlimits id).bind fun _ _ _ _ => leads_pure trivial
  case h_11 => exact (leads_bare id).bind fun _ _ _ _ => leads_pure trivial
  case h_12 => exact leads_fail
  all_goals exact leads_pure trivial

end Build

/-! ## Assigning -/

/-- Giving the property `name` a new value changes a mark, or puts the value into the content. -/
inductive Build.Assign (name : String) : Store → Store → Prop
  | mark {store : Store} (id : TokenId) (f : Marks → Marks) :
      Assign name store (store.modify id fun entry => { entry with marks := f entry.marks })
  | content {store : Store} {id : TokenId} {entry : Entry} {property : Property} {value : Arg}
      {node : Node} (hname : Property.ofName? name = some property)
      (hid : store.find? id = some entry)
      (hnode : replaceIn property value entry.node = some node) :
      Assign name store (store.modify id fun entry => { entry with node })

namespace Build

open Attempt

variable {store : Store}

/-- An assignment makes no token. -/
theorem Assign.size_eq {name : String} {store' : Store} (h : Assign name store store') :
    store'.entries.size = store.entries.size := by
  cases h <;> simp [Store.modify]

/-- A check leaves the store as it is, whether it passes or not. -/
theorem state_checkInset (kind : Kind) (arg : Arg) :
    ((checkInset kind arg).run store).2 = store := by
  cases arg with
  | token id => rfl
  | datum value =>
    cases value with
    | int n =>
      rw [checkInset]
      split <;> rfl
    | _ => rfl

theorem state_kindOf (arg : Arg) : ((kindOf arg).run store).2 = store := by
  cases arg <;> rfl

/-- Only the property that is named is assigned. -/
theorem leads_setProperty (owner : Arg) (name : String) (value : Arg) :
    (setProperty owner name value).Leads (Assign name) store fun _ _ => True := by
  have hkind : (kindOf value).Leads (Assign name) store fun s _ => s = store :=
    ⟨by rw [state_kindOf], fun _ _ => state_kindOf value⟩
  cases owner with
  | datum owner => exact leads_fail
  | token id =>
    refine leads_state_bind ?_
    dsimp only
    split
    · exact leads_fail
    · exact leads_fail
    · exact leads_fail
    · exact leads_fail
    · have hinset : (checkInset (store.kind id) value).Leads (Assign name) store fun _ _ => True :=
        ⟨by rw [state_checkInset], fun _ _ => trivial⟩
      refine hinset.bind fun inset _ _ _ => ?_
      exact leads_update (.mark id fun marks => { marks with inset }) trivial
    · split
      · rename_i b
        exact leads_update (.mark id fun marks => { marks with breakable := b }) trivial
      · exact hkind.bind fun _ _ _ _ => leads_fail
    · rename_i hproperty
      refine leads_require.bind fun entry s _ ⟨hs, hentry⟩ => ?_
      subst hs
      refine hkind.bind fun got s' _ hs' => ?_
      subst hs'
      refine leads_require.bind fun node s _ ⟨hs, hnode⟩ => ?_
      subst hs
      exact leads_update (.content hproperty hentry hnode) trivial

end Build

/-! ## Deeds -/

namespace Session

/-- The same session with other settings active. -/
def withSettings (session : Session) (settings : Settings) : Session :=
  { session with settings }

/-- On what terms a session goes on. -/
structure Terms where
  /-- Its names are bound to what is there. -/
  sound : Prop := True
  /-- Which settings are made. -/
  made : Settings → Prop := fun _ => True
  /-- Which properties are assigned. -/
  assigned : String → Prop := fun _ => True

/-- The thresholds are those of settings that are made. -/
def Terms.allows (terms : Terms) (limits : Thresholds) : Prop :=
  ∃ settings, terms.made settings ∧ settings.toThresholds = limits

/-- Settings that are made have thresholds that are allowed. -/
theorem Terms.allows_of_made {terms : Terms} {settings : Settings} (h : terms.made settings) :
    terms.allows settings.toThresholds :=
  ⟨settings, h, rfl⟩

/-- What a session does at once, with its settings as they are. -/
inductive Deed (terms : Terms) : Session → Session → Prop
  | work {session : Session} {store : Store}
      (h : terms.sound → Evolves terms.allows session.store store) :
      Deed terms session { session with store }
  | bind {session : Session} (name : String) {arg : Arg}
      (h : terms.sound → arg.ValidIn session.store) :
      Deed terms session { session with names := (name, arg) :: session.names }
  | assign {session : Session} {store : Store} {name : String} (hname : terms.assigned name)
      (h : Build.Assign name session.store store) : Deed terms session { session with store }
  | renderer {session : Session} (name : String) {own : Option Settings}
      (h : ∀ settings, own = some settings → terms.made settings) :
      Deed terms session { session with renderers := (name, own) :: session.renderers }

/-- A session goes on by deeds. -/
abbrev Deeds (terms : Terms) : Session → Session → Prop :=
  Relation.ReflTransGen (Deed terms)

/-- The session meets the terms. -/
structure Fit (terms : Terms) (session : Session) : Prop where
  names : terms.sound → session.names.ValidIn session.store
  settings : terms.made session.settings
  renderers : ∀ name settings, session.renderers.lookup name = some (some settings) →
    terms.made settings

variable {terms : Terms} {session session' : Session}

/-- No deed touches the settings. -/
theorem Deeds.settings_eq (h : Deeds terms session session') :
    session'.settings = session.settings := by
  induction h with
  | refl => rfl
  | tail _ hdeed ih => cases hdeed <;> exact ih

/-- The settings have no part in what is done. -/
theorem Deeds.withSettings (h : Deeds terms session session') (settings : Settings) :
    Deeds terms (session.withSettings settings) (session'.withSettings settings) :=
  h.lift (·.withSettings settings) fun _ _ hdeed => by
    cases hdeed with
    | work hwork => exact .work hwork
    | bind name harg => exact .bind name harg
    | assign hname hassign => exact .assign hname hassign
    | renderer name hown => exact .renderer name hown

theorem Fit.withSettings (hfit : session.Fit terms) {settings : Settings}
    (h : terms.made settings) : (session.withSettings settings).Fit terms :=
  ⟨hfit.names, h, hfit.renderers⟩

/-- A deed on the terms leaves a session that meets them. -/
theorem Fit.deed (hfit : session.Fit terms) (h : Deed terms session session') :
    session'.Fit terms := by
  cases h with
  | work hwork => exact ⟨fun hs => (hfit.names hs).mono (hwork hs), hfit.settings, hfit.renderers⟩
  | @bind name arg harg =>
    refine ⟨fun hs other found hfound => ?_, hfit.settings, hfit.renderers⟩
    simp only [List.lookup_cons] at hfound
    split at hfound
    · exact Option.some.inj hfound ▸ harg hs
    · exact hfit.names hs other found hfound
  | assign _ hassign =>
    refine ⟨fun hs other found hfound => ?_, hfit.settings, hfit.renderers⟩
    have hvalid := hfit.names hs other found hfound
    cases found with
    | token id =>
      rw [Arg.ValidIn, Store.Has] at hvalid ⊢
      rwa [hassign.size_eq]
    | datum value => trivial
  | @renderer name own hown =>
    refine ⟨hfit.names, hfit.settings, fun other found hfound => ?_⟩
    simp only [List.lookup_cons] at hfound
    split at hfound
    · exact hown found (Option.some.inj hfound)
    · exact hfit.renderers other found hfound

theorem Fit.deeds (hfit : session.Fit terms) (h : Deeds terms session session') :
    session'.Fit terms := by
  induction h with
  | refl => exact hfit
  | tail _ hdeed ih => exact ih.deed hdeed

end Session

/-! ## Actions -/

namespace Action

open Attempt Session

variable {α β : Type} {terms : Terms} {session : Session}

/-- An action under its own settings is the action from a session that has them, with the outer
settings put back. -/
theorem run_under (own : Settings) (x : Action α) (session : Session) :
    (under own x).run session =
      ((x.run (session.withSettings own)).1,
        (x.run (session.withSettings own)).2.withSettings session.settings) :=
  rfl

/-- Whatever comes of the action, it does deeds, but for the settings. -/
def Does (terms : Terms) (session : Session) (x : Action α) : Prop :=
  Deeds terms session ((x.run session).2.withSettings session.settings)

theorem does_pure (a : α) : (pure a : Action α).Does terms session :=
  .refl

/-- What goes by deeds alone leaves the settings as they are, so nothing has to be put back. -/
theorem does_of_leads {x : Action α} {post : Session → α → Prop}
    (h : x.Leads (Deed terms) session post) : x.Does terms session := by
  rw [Does, ← Deeds.settings_eq h.1]
  exact h.1

theorem Does.outcome {x : Action α} (h : x.Does terms session) :
    Does terms session (Attempt.outcome x) :=
  h

/-- The second action may start under other settings, on which its deeds do not depend. -/
theorem Does.bind {x : Action α} {f : α → Action β} (hx : x.Does terms session)
    (hf : ∀ a, (x.run session).1 = .ok a → (f a).Does terms (x.run session).2) :
    (x >>= f).Does terms session := by
  rw [Does, run_bind]
  rcases hrun : x.run session with ⟨fault | a, after⟩
  · rw [Does, hrun] at hx
    exact hx
  · rw [Does, hrun] at hx
    rw [hrun] at hf
    exact hx.trans ((hf a rfl).withSettings session.settings)

/-- Work on the store is one deed. -/
theorem leads_building {x : Build α} {post : Store → α → Prop}
    (hx : terms.sound → x.Leads (Change terms.allows) session.store post) :
    (building x).Leads (Deed terms) session fun s a => terms.sound → post s.store a :=
  ⟨.single (.work fun hs => (hx hs).1), fun a ha hs => (hx hs).2 a ha⟩

/-- An assignment is a deed if its property may be assigned. -/
theorem leads_assigning {x : Build α} {name : String} (hname : terms.assigned name)
    (hx : x.Leads (Build.Assign name) session.store fun _ _ => True) :
    (building x).Leads (Deed terms) session fun _ _ => True :=
  ⟨hx.1.lift (fun store => { session with store }) fun _ _ h => .assign hname h,
    fun _ _ => trivial⟩

/-- A name is bound to something that is there. -/
theorem leads_lookup (hfit : session.Fit terms) (name : String) :
    (lookup name).Leads (Deed terms) session fun s arg => terms.sound → arg.ValidIn s.store :=
  leads_state_bind <| leads_require.imp fun arg _ _ ⟨hs, harg⟩ hsound =>
    hs ▸ hfit.names hsound name arg harg

theorem leads_lookupToken (hfit : session.Fit terms) (name property : String) :
    (lookupToken name property).Leads (Deed terms) session fun _ _ => True := by
  refine (leads_lookup hfit name).bind fun arg _ _ _ => ?_
  cases arg with
  | token id => exact leads_pure trivial
  | datum value => exact leads_fail

theorem leads_lookupGroup (hfit : session.Fit terms) (name method : String) :
    (lookupGroup name method).Leads (Deed terms) session fun _ _ => True := by
  refine (leads_lookupToken hfit name method).bind fun id _ _ _ => leads_state_bind ?_
  dsimp only
  split
  · exact leads_pure trivial
  · exact leads_fail

theorem leads_partCount (id : TokenId) :
    (partCount id).Leads (Deed terms) session fun _ _ => True := by
  refine leads_state_bind ?_
  split <;> exact leads_pure trivial

theorem leads_make (hfit : session.Fit terms) (recipe : Recipe) :
    (make recipe).Leads (Deed terms) session fun s arg => terms.sound → arg.ValidIn s.store :=
  leads_state_bind (leads_building fun hs => recipe.leads_build (hfit.names hs))

/-- The active settings are among those that are made. -/
theorem leads_settings (hfit : session.Fit terms) :
    settings.Leads (Deed terms) session fun _ settings => terms.made settings :=
  leads_state_bind (leads_pure hfit.settings)

/-- What is done under settings of its own is done, and nothing of them is left. -/
theorem leads_under {own : Settings} {x : Action α} (hx : x.Does terms (session.withSettings own)) :
    (under own x).Leads (Deed terms) session fun _ _ => True :=
  ⟨hx.withSettings session.settings, fun _ _ => trivial⟩

theorem leads_render (hfit : session.Fit terms) {own : Settings} (hown : terms.made own)
    (root : Arg) : (render own root).Leads (Deed terms) session fun _ _ => True := by
  have hsettings := leads_settings (hfit.withSettings hown)
  refine leads_under ((does_of_leads hsettings).bind fun active hactive => ?_)
  have hallowed := Terms.allows_of_made (hsettings.2 active hactive)
  exact does_of_leads (leads_building fun _ => Build.leads_render hallowed root)

end Action

/-! ## Steps -/

/-- Settings made from these fields are among those that are made. -/
def Session.Terms.Makes (terms : Session.Terms) (fields : Fields) : Prop :=
  ∀ settings, Settings.ofFields fields = .ok settings → terms.made settings

namespace Action

open Attempt Session

variable {terms : Terms} {session : Session}

theorem leads_ofFields {fields : Fields} (h : terms.Makes fields) :
    (ofExcept (Settings.ofFields fields)).Leads (Deed terms) session
      fun _ settings => terms.made settings :=
  leads_ofExcept.imp fun settings _ _ ⟨_, hok⟩ => h settings hok

theorem leads_settings? {fields : Option Fields}
    (h : ∀ given, fields = some given → terms.Makes given) :
    (settings? fields).Leads (Deed terms) session
      fun _ own => ∀ settings, own = some settings → terms.made settings := by
  cases fields with
  | none => exact leads_pure fun _ hown => nomatch hown
  | some given =>
    refine (leads_ofFields (h given rfl)).bind fun settings _ _ hsettings => leads_pure ?_
    intro own hown
    exact Option.some.inj hown ▸ hsettings

/-- Whichever settings are chosen, they are among those that are made. -/
theorem leads_choose (hfit : session.Fit terms) {choice : SettingsChoice}
    (h : ∀ fields, choice = .given fields → terms.Makes fields) :
    (choose choice).Leads (Deed terms) session fun _ settings => terms.made settings := by
  cases choice with
  | active => exact leads_settings hfit
  | given fields => exact leads_ofFields (h fields rfl)
  | renderer name =>
    refine leads_state_bind (leads_require.bind fun own _ _ ⟨_, hown⟩ => leads_pure ?_)
    cases own with
    | none => exact hfit.settings
    | some settings => exact hfit.renderers name settings hown

end Action

namespace Step

open Attempt Session

/-- The steps right inside a step. -/
def inner : Step → List Step
  | block _ steps => steps
  | thread steps => steps
  | _ => []

/-- The settings after a step, given those before. -/
def settingsAfter (settings : Settings) : Step → Settings
  | setSettings fields => (Settings.ofFields fields).toOption.getD settings
  | resetSettings => {}
  | _ => settings

/-- What the step itself makes and assigns is within the terms. -/
def Permits (terms : Terms) : Step → Prop
  | set _ property _ => terms.assigned property
  | bindRenderer _ fields => ∀ given, fields = some given → terms.Makes given
  | render _ choice => ∀ fields, choice = .given fields → terms.Makes fields
  | setSettings fields => terms.Makes fields
  | resetSettings => terms.made {}
  | block fields _ => terms.Makes fields
  | thread _ => terms.made {}
  | _ => True

/-- All steps that are `ok` are within the terms, down to the innermost ones. -/
structure Policy (terms : Terms) (ok : Step → Prop) : Prop where
  permits : ∀ {step : Step}, ok step → step.Permits terms
  inner : ∀ {step : Step}, ok step → ∀ other ∈ step.inner, ok other

/-- However the step ends, it has done deeds, and has set the settings if it is one of the two that
are to do so. -/
structure Ends (terms : Terms) (session : Session) (step : Step) : Prop where
  deeds : step.run.Does terms session
  settings : (step.run.run session).2.settings = settingsAfter session.settings step

variable {terms : Terms} {ok : Step → Prop} {session : Session} {step : Step}

/-- A step that is to leave the settings alone does so if it goes by deeds. -/
theorem Ends.of_leads (h : step.run.Leads (Deed terms) session fun _ _ => True)
    (hafter : settingsAfter session.settings step = session.settings) :
    step.Ends terms session :=
  ⟨Action.does_of_leads h, (Deeds.settings_eq h.1).trans hafter.symm⟩

/-- The settings after a step within the terms are among those that are made. -/
theorem made_settingsAfter (h : step.Permits terms) {settings : Settings}
    (hsettings : terms.made settings) : terms.made (settingsAfter settings step) := by
  cases step with
  | setSettings fields =>
    cases hfields : Settings.ofFields fields with
    | error fault =>
      rw [settingsAfter, hfields]
      exact hsettings
    | ok own =>
      rw [settingsAfter, hfields]
      exact h own hfields
  | resetSettings => exact h
  | _ => exact hsettings

/-- After a step within the terms a session still meets them. -/
theorem Ends.fit (h : step.Ends terms session) (hpermits : step.Permits terms)
    (hfit : session.Fit terms) : (step.run.run session).2.Fit terms := by
  have hmade := made_settingsAfter hpermits hfit.settings
  rw [← h.settings] at hmade
  exact (hfit.deeds h.deeds).withSettings hmade

mutual

/-- Every step ends so, whatever is in it. -/
theorem ends_run (policy : Policy terms ok) : ∀ (step : Step) {session : Session}, ok step →
    session.Fit terms → step.Ends terms session
  | bind name recipe, _, _, hfit => by
    refine .of_leads ?_ rfl
    rw [run]
    refine (Action.leads_make hfit recipe).bind fun arg _ _ harg => ?_
    refine (leads_update (.bind name harg) trivial).bind fun _ _ _ (_ : True) => ?_
    exact (Action.leads_building fun _ => Build.leads_kindOf arg).reply
  | add group part, _, _, hfit => by
    refine .of_leads ?_ rfl
    rw [run]
    refine (Action.leads_lookupGroup hfit group "add").bind fun id _ h₁ _ => ?_
    refine (Action.leads_make (hfit.deeds h₁) part).bind fun part _ _ hpart => ?_
    refine (Action.leads_building fun hs => Build.leads_add id (hpart hs)).bind fun _ _ _ _ => ?_
    exact (Action.leads_partCount id).reply
  | addText group text request, _, _, hfit => by
    refine .of_leads ?_ rfl
    rw [run]
    refine (Action.leads_lookupGroup hfit group "add_text").bind fun id _ _ _ => ?_
    refine (Action.leads_building fun _ => Build.leads_addText id _ request).bind fun _ _ _ _ => ?_
    exact (Action.leads_partCount id).reply
  | get name property, _, _, hfit => by
    refine .of_leads ?_ rfl
    rw [run]
    refine (Action.leads_lookupToken hfit name property).bind fun id _ h₁ _ => ?_
    refine (Action.leads_settings (hfit.deeds h₁)).bind fun settings _ _ hsettings => ?_
    exact (Action.leads_building fun _ =>
      Build.leads_getProperty (Terms.allows_of_made hsettings) id property).reply
  | set name property value, _, hok, hfit => by
    refine .of_leads ?_ rfl
    rw [run]
    refine (Action.leads_lookup hfit name).bind fun owner _ h₁ _ => ?_
    refine (Action.leads_make (hfit.deeds h₁) value).bind fun value _ _ _ => ?_
    exact (Action.leads_assigning (policy.permits hok)
      (Build.leads_setProperty owner property value)).reply
  | state name, _, _, hfit => by
    refine .of_leads ?_ rfl
    rw [run]
    refine (Action.leads_lookupToken hfit name _).bind fun id _ _ _ => ?_
    exact (Action.leads_building fun _ => Build.leads_reports id).reply
  | describe name, _, _, hfit => by
    refine .of_leads ?_ rfl
    rw [run]
    refine (Action.leads_lookup hfit name).bind fun root _ _ _ => ?_
    exact (Action.leads_building fun _ => Build.leads_describe? root).reply
  | walk recipe, _, _, hfit => by
    refine .of_leads ?_ rfl
    rw [run]
    refine (Action.leads_make hfit recipe).bind fun root _ _ _ => ?_
    exact (Action.leads_building fun _ => Build.leads_walk root).reply
  | measure recipe, _, _, hfit => by
    refine .of_leads ?_ rfl
    rw [run]
    refine (Action.leads_make hfit recipe).bind fun root _ h₁ _ => ?_
    refine (Action.leads_settings (hfit.deeds h₁)).bind fun settings _ _ hsettings => ?_
    exact (Action.leads_building fun _ =>
      Build.leads_measure (Terms.allows_of_made hsettings) root).reply
  | print name, _, _, hfit => by
    refine .of_leads ?_ rfl
    rw [run]
    refine (Action.leads_lookup hfit name).bind fun arg _ h₁ _ => ?_
    cases arg with
    | datum value => exact leads_pure trivial
    | token id =>
      refine (Action.leads_settings (hfit.deeds h₁)).bind fun own _ h₂ hown => ?_
      exact (Action.leads_render (hfit.deeds (h₁.trans h₂)) hown _).reply
  | bindRenderer name fields, _, hok, _ => by
    refine .of_leads ?_ rfl
    rw [run]
    refine (Action.leads_settings? (policy.permits hok)).bind fun own _ _ hown => ?_
    exact (leads_update (.renderer name hown) trivial).bind
      fun _ _ _ (_ : True) => leads_pure trivial
  | render recipe choice, _, hok, hfit => by
    refine .of_leads ?_ rfl
    rw [run]
    refine (Action.leads_make hfit recipe).bind fun root _ h₁ _ => ?_
    refine (Action.leads_choose (hfit.deeds h₁) (policy.permits hok)).bind fun own _ h₂ hown => ?_
    exact (Action.leads_render (hfit.deeds (h₁.trans h₂)) hown root).reply
  | getSettings, _, _, hfit => by
    refine .of_leads ?_ rfl
    rw [run]
    exact (Action.leads_settings hfit).reply
  | setSettings fields, session, _, _ => by
    refine ⟨?_, ?_⟩
    · rw [Action.Does, run, run_bind, run_ofExcept]
      cases Settings.ofFields fields <;> exact .refl
    · rw [run, run_bind, run_ofExcept, settingsAfter]
      cases Settings.ofFields fields <;> rfl
  | resetSettings, _, _, _ => by
    refine ⟨?_, ?_⟩
    · rw [Action.Does, run]
      exact .refl
    · rw [run]
      rfl
  | block fields steps, _, hok, hfit => by
    refine .of_leads ?_ rfl
    rw [run]
    refine (Action.leads_ofFields (policy.permits hok)).bind fun own _ h₁ hown => ?_
    have hfit₁ := hfit.deeds h₁
    refine (Action.leads_under (does_runBlock policy steps (policy.inner hok)
      (hfit₁.withSettings hown))).bind fun _ _ h₂ _ => ?_
    exact (Action.leads_settings (hfit₁.deeds h₂)).reply
  | thread steps, _, hok, hfit => by
    refine .of_leads ?_ rfl
    rw [run]
    refine (Action.leads_under (does_runAll policy steps (policy.inner hok)
      (hfit.withSettings (policy.permits hok)))).bind fun _ _ h₁ _ => ?_
    exact (Action.leads_settings (hfit.deeds h₁)).reply

/-- A block does deeds up to the first fault. -/
theorem does_runBlock (policy : Policy terms ok) : ∀ (steps : List Step) {session : Session},
    (∀ step ∈ steps, ok step) → session.Fit terms → (runBlock steps).Does terms session
  | [], _, _, _ => Action.does_pure _
  | step :: steps, _, hsteps, hfit => by
    have hstep := hsteps step (by simp)
    have hends := ends_run policy step hstep hfit
    rw [runBlock]
    refine hends.deeds.outcome.bind fun result _ => ?_
    cases result with
    | error fault => exact Action.does_pure _
    | ok reply =>
      have hrest := does_runBlock policy steps (fun other h => hsteps other (by simp [h]))
        (hends.fit (policy.permits hstep) hfit)
      exact hrest.bind fun _ _ => Action.does_pure _

/-- A script does deeds, also after a fault. -/
theorem does_runAll (policy : Policy terms ok) : ∀ (steps : List Step) {session : Session},
    (∀ step ∈ steps, ok step) → session.Fit terms → (runAll steps).Does terms session
  | [], _, _, _ => Action.does_pure _
  | step :: steps, _, hsteps, hfit => by
    have hstep := hsteps step (by simp)
    have hends := ends_run policy step hstep hfit
    rw [runAll]
    refine hends.deeds.outcome.bind fun _ _ => ?_
    have hrest := does_runAll policy steps (fun other h => hsteps other (by simp [h]))
      (hends.fit (policy.permits hstep) hfit)
    exact hrest.bind fun _ _ => Action.does_pure _

end

/-- If all the settings that can be made are within the terms, and so is every assignment, there is
nothing to ask of the steps. -/
theorem policy_any (hmakes : ∀ fields, terms.Makes fields) (hdefault : terms.made {})
    (hassigned : ∀ name, terms.assigned name) : Policy terms fun _ => True where
  permits {step} _ := by
    cases step with
    | set _ property _ => exact hassigned property
    | bindRenderer _ _ => exact fun given _ => hmakes given
    | render _ _ => exact fun fields _ => hmakes fields
    | setSettings fields => exact hmakes fields
    | block fields _ => exact hmakes fields
    | resetSettings => exact hdefault
    | thread _ => exact hdefault
    | _ => trivial
  inner _ _ _ := trivial

/-- A script goes on from where its first step ends. -/
theorem state_runAll_cons (first : Step) (steps : List Step) (session : Session) :
    ((runAll (first :: steps)).run session).2 =
      ((runAll steps).run (first.run.run session).2).2 := by
  rw [runAll, run_bind, run_outcome]
  dsimp only
  rw [run_bind]
  split
  · rename_i heq
    rw [heq, run_pure]
  · rename_i heq
    rw [heq]

end Step

end TokenLayout
