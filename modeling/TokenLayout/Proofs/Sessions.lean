import TokenLayout.Proofs.Deeds

/-!
# Sessions advance by changes

A step of a script that assigns no content (`Step.Plain`) takes a session on by advances of four
kinds (`Session.Advance`): a change to the store, a name bound to something that is there, a
renderer, and new settings. That follows from its deeds (`Session.Deed.advances`), so it holds also
if the step stops with a fault (`Step.advances_run`). An invariant of advances is then one of all
sessions that are reached (`Session.Reached.invariant`).
-/

namespace TokenLayout

/-- Writing a token on a page fills cells. -/
theorem Store.evolves_write {allowed : Thresholds → Prop} {limits : Thresholds}
    (hlimits : allowed limits) (store : Store) (id : TokenId) (level : Int) (page : Page) :
    Evolves allowed store (store.write limits id level page).2.2 := by
  unfold write
  split
  · exact .refl
  · rename_i token ht
    have hstands := (Store.standsIn_of_tree? ht).2
    exact Evolves.of_fills hlimits (Token.fills_write hstands level page.fresh)

/-! ## Advances -/

/-- A session with its renderers and its own settings within what is allowed, and its names bound to
what is there. -/
structure Session.Proper (allowed : Thresholds → Prop) (session : Session) : Prop where
  names : session.names.ValidIn session.store
  settings : allowed session.settings.toThresholds
  renderers : ∀ name settings, session.renderers.lookup name = some (some settings) →
    allowed settings.toThresholds

/-- What a session does at once. -/
inductive Session.Advance (allowed : Thresholds → Prop) : Session → Session → Prop
  | store {session : Session} {store : Store} (h : Change allowed session.store store) :
      Advance allowed session { session with store }
  | bind {session : Session} (name : String) {arg : Arg} (h : arg.ValidIn session.store) :
      Advance allowed session { session with names := (name, arg) :: session.names }
  | renderer {session : Session} (name : String) {own : Option Settings}
      (h : ∀ settings, own = some settings → allowed settings.toThresholds) :
      Advance allowed session { session with renderers := (name, own) :: session.renderers }
  | settings {session : Session} {settings : Settings} (h : allowed settings.toThresholds) :
      Advance allowed session { session with settings }

/-- A session goes on by advances. -/
abbrev Session.Advances (allowed : Thresholds → Prop) : Session → Session → Prop :=
  Relation.ReflTransGen (Advance allowed)

theorem Evolves.advances {allowed : Thresholds → Prop} {session : Session} {store : Store}
    (h : Evolves allowed session.store store) :
    Session.Advances allowed session { session with store } :=
  h.lift (fun store => { session with store }) fun _ _ hc => .store hc

/-! ## Steps -/

/-- Settings made from these fields are allowed. -/
def Fields.Allowed (allowed : Thresholds → Prop) (fields : Fields) : Prop :=
  ∀ settings, Settings.ofFields fields = .ok settings → allowed settings.toThresholds

/-- The settings chosen are allowed, given that those of the session and of its renderers are. -/
def SettingsChoice.Allowed (allowed : Thresholds → Prop) : SettingsChoice → Prop
  | .given fields => fields.Allowed allowed
  | _ => True

mutual

/-- The step assigns nothing but marks, and all the settings it makes are allowed. -/
def Step.Plain (allowed : Thresholds → Prop) : Step → Prop
  | .set _ property _ => property = Property.breakable.name ∨ property = Property.inset.name
  | .bindRenderer _ fields => ∀ given, fields = some given → given.Allowed allowed
  | .render _ choice => choice.Allowed allowed
  | .setSettings fields => fields.Allowed allowed
  | .resetSettings => allowed {}
  | .block fields steps => fields.Allowed allowed ∧ Step.AllPlain allowed steps
  | .thread steps => allowed {} ∧ Step.AllPlain allowed steps
  | _ => True

/-- All of the steps are plain. -/
def Step.AllPlain (allowed : Thresholds → Prop) : List Step → Prop
  | [] => True
  | step :: steps => step.Plain allowed ∧ Step.AllPlain allowed steps

end

/-- The terms of plain steps. -/
def Step.plainTerms (allowed : Thresholds → Prop) : Session.Terms where
  made settings := allowed settings.toThresholds
  assigned name := name = Property.breakable.name ∨ name = Property.inset.name

namespace Step

variable {allowed : Thresholds → Prop}

theorem allows_plainTerms {limits : Thresholds} :
    (plainTerms allowed).allows limits ↔ allowed limits :=
  ⟨fun ⟨_, hmade, heq⟩ => heq ▸ hmade, fun h => ⟨{ toThresholds := limits }, h, rfl⟩⟩

theorem AllPlain.forall {steps : List Step} (h : AllPlain allowed steps) :
    ∀ step ∈ steps, step.Plain allowed := by
  induction steps with
  | nil => simp
  | cons first steps ih => exact List.forall_mem_cons.2 ⟨h.1, ih h.2⟩

/-- Plain steps are within those terms, down to the innermost ones. -/
theorem policy_plain : Policy (plainTerms allowed) (Plain allowed) where
  permits {step} h := by
    cases step with
    | set _ _ _ | bindRenderer _ _ | setSettings _ | resetSettings => exact h
    | render _ choice =>
      rintro fields rfl
      exact h
    | block _ _ | thread _ => exact h.1
    | _ => trivial
  inner {step} h := by
    cases step with
    | block _ _ | thread _ => exact h.2.forall
    | _ => simp [inner]

end Step

/-- Assigning a mark changes marks only. -/
theorem Build.Assign.change {allowed : Thresholds → Prop} {name : String} {store store' : Store}
    (hname : (Step.plainTerms allowed).assigned name) (h : Assign name store store') :
    Change allowed store store' := by
  cases h with
  | mark id f => exact .mark id f
  | @content id entry property value node hproperty hid hnode =>
    -- The content of a token has no marks in it.
    rcases hname with rfl | rfl
    · obtain rfl : .breakable = property := Option.some.inj hproperty
      cases hentry : entry.node <;> simp [hentry, replaceIn] at hnode
    · obtain rfl : .inset = property := Option.some.inj hproperty
      cases hentry : entry.node <;> simp [hentry, replaceIn] at hnode

namespace Session

variable {allowed : Thresholds → Prop} {session session' : Session}

/-- Each deed of plain steps advances the session. -/
theorem Deed.advances (h : Deed (Step.plainTerms allowed) session session') :
    Advances allowed session session' := by
  cases h with
  | work hwork =>
    exact ((hwork trivial).mono fun _ => Step.allows_plainTerms.1).advances
  | bind name harg => exact .single (.bind name (harg trivial))
  | assign hname hassign => exact .single (.store (hassign.change hname))
  | renderer name hown => exact .single (.renderer name hown)

/-- A proper session is one that meets the terms of plain steps. -/
theorem proper_iff_fit : session.Proper allowed ↔ session.Fit (Step.plainTerms allowed) :=
  ⟨fun h => ⟨fun _ => h.names, h.settings, h.renderers⟩,
    fun h => ⟨h.names trivial, h.settings, h.renderers⟩⟩

theorem Proper.advance (hp : session.Proper allowed) (h : Advance allowed session session') :
    session'.Proper allowed := by
  rw [proper_iff_fit] at hp ⊢
  cases h with
  | store hc =>
    exact hp.deed (.work fun _ => .single (hc.mono fun _ => Step.allows_plainTerms.2))
  | bind name harg => exact hp.deed (.bind name fun _ => harg)
  | renderer name hown => exact hp.deed (.renderer name hown)
  | settings hsettings => exact hp.withSettings hsettings

/-- A session stays proper as it advances. -/
theorem Proper.advances (hp : session.Proper allowed) (h : Advances allowed session session') :
    session'.Proper allowed := by
  induction h with
  | refl => exact hp
  | tail _ ha ih => exact ih.advance ha

end Session

/-- A plain step takes a session on by advances, also if it ends with a fault. -/
theorem Step.advances_run {allowed : Thresholds → Prop} {step : Step} {session : Session}
    (hplain : step.Plain allowed) (hp : session.Proper allowed) :
    Session.Advances allowed session (step.run.run session).2 := by
  have hfit := Session.proper_iff_fit.1 hp
  have hends := ends_run policy_plain step hplain hfit
  have hsettings := (hends.fit (policy_plain.permits hplain) hfit).settings
  have hdeeds : Session.Advances allowed session
      ((step.run.run session).2.withSettings session.settings) :=
    Relation.reflTransGen_closed (fun _ _ => Session.Deed.advances) _ _ hends.deeds
  exact hdeeds.tail (.settings hsettings)

/-! ## Reached sessions -/

namespace Session

variable {allowed : Thresholds → Prop} {session : Session}

/-- A session after a run of plain steps and of writes on any pages, each of them ending as it may.
Between them a token gets a name, also one that was made as a part of another. -/
inductive Reached (allowed : Thresholds → Prop) : Session → Prop
  | start {settings : Settings} (h : allowed settings.toThresholds) : Reached allowed { settings }
  | step {session : Session} {step : Step} (hplain : step.Plain allowed)
      (h : Reached allowed session) : Reached allowed (step.run.run session).2
  | name {session : Session} (name : String) {id : TokenId} (hid : session.store.Has id)
      (h : Reached allowed session) :
      Reached allowed { session with names := (name, .token id) :: session.names }
  | write {session : Session} {limits : Thresholds} (hlimits : allowed limits) (id : TokenId)
      (level : Int) (page : Page) (h : Reached allowed session) :
      Reached allowed
        { session with store := (session.store.write limits id level page).2.2 }

theorem advances_write {limits : Thresholds} (hlimits : allowed limits) (id : TokenId)
    (level : Int) (page : Page) : Advances allowed session
      { session with store := (session.store.write limits id level page).2.2 } :=
  (session.store.evolves_write hlimits id level page).advances

theorem Reached.proper (h : session.Reached allowed) : session.Proper allowed := by
  induction h with
  | start hsettings =>
    exact ⟨fun _ _ hfound => (nomatch hfound), hsettings, fun _ _ hfound => (nomatch hfound)⟩
  | step hplain _ ih => exact ih.advances (Step.advances_run hplain ih)
  | name name hid _ ih => exact ih.advance (.bind name hid.valid)
  | write hlimits id level page _ ih => exact ih.advances (advances_write hlimits id level page)

/-- The session after a script is reached. -/
theorem Reached.runAll : ∀ {steps : List Step} {session : Session}, session.Reached allowed →
    Step.AllPlain allowed steps → ((Step.runAll steps).run session).2.Reached allowed
  | [], _, h, _ => h
  | first :: steps, session, h, hplain => by
    rw [Step.state_runAll_cons]
    exact Reached.runAll (.step hplain.1 h) hplain.2

/-- What holds of an empty store and is kept by every change holds in every reached session. -/
theorem Reached.invariant {P : Store → Prop} (hempty : P {})
    (hchange : ∀ store store', Change allowed store store' → P store → P store')
    (h : session.Reached allowed) : P session.store := by
  have hadvances : ∀ s s', Advances allowed s s' → P s.store → P s'.store := by
    intro s s' hs hP
    induction hs with
    | refl => exact hP
    | tail _ ha ih =>
      cases ha with
      | store hc => exact hchange _ _ hc ih
      | _ => exact ih
  induction h with
  | start => exact hempty
  | step hplain h ih => exact hadvances _ _ (Step.advances_run hplain h.proper) ih
  | name name hid _ ih => exact ih
  | write hlimits id level page _ ih =>
    exact hadvances _ _ (advances_write hlimits id level page) ih

end Session

end TokenLayout
