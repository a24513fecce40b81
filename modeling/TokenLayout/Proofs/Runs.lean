import TokenLayout.Proofs.Sessions

/-!
# Runs of a session

A session makes moves (`Session.Move`): it runs a step, binds a name to a token that it has, writes
a token on a page, or goes on under other settings. The last of these is what a block and a thread
do at their ends, so the sessions in the midst of them are met as well. `Session.Runs` is a sequence
of moves, given which steps may be run.

If the steps assign marks only, a run is made of advances (`Session.Runs.advances`). If they assign
anything but the body of a bracket, a run is made of turns (`Session.Runs.turns`): a turn is an
advance, or a token gets other content with the same tokens below it (`Reassign`).
-/

namespace TokenLayout

/-! ## Moves -/

namespace Session

/-- What can be done with a session from outside. The steps that may be run are those that are
`ok`. -/
inductive Move (ok : Step → Prop) : Session → Session → Prop
  | step {session : Session} {step : Step} (hstep : ok step) :
      Move ok session (step.run.run session).2
  | name {session : Session} (name : String) {id : TokenId} (hid : session.store.Has id) :
      Move ok session { session with names := (name, .token id) :: session.names }
  | write {session : Session} (limits : Thresholds) (id : TokenId) (level : Int) (page : Page) :
      Move ok session { session with store := (session.store.write limits id level page).2.2 }
  | settings {session : Session} (settings : Settings) : Move ok session { session with settings }

/-- A session is taken to another by moves. -/
abbrev Runs (ok : Step → Prop) : Session → Session → Prop :=
  Relation.ReflTransGen (Move ok)

/-- A script takes a session on by one move after the other. -/
theorem runs_runAll {ok : Step → Prop} {steps : List Step} (session : Session)
    (hsteps : ∀ step ∈ steps, ok step) : Runs ok session ((Step.runAll steps).run session).2 := by
  induction steps generalizing session with
  | nil => exact .refl
  | cons first steps ih =>
    have hfirst : Move ok session (first.run.run session).2 := .step (hsteps first (by simp))
    have hrest := ih (first.run.run session).2 fun step hstep => hsteps step (by simp [hstep])
    rw [Step.state_runAll_cons]
    exact .head hfirst hrest

variable {session session' : Session}

theorem proper_start (settings : Settings) :
    ({ settings } : Session).Proper fun _ => True :=
  (Reached.start trivial).proper

/-- The store of a session evolves as it advances. -/
theorem Advances.evolves {allowed : Thresholds → Prop} (h : Advances allowed session session') :
    Evolves allowed session.store session'.store := by
  induction h with
  | refl => exact .refl
  | tail _ ha ih =>
    cases ha with
    | store hc => exact ih.tail hc
    | _ => exact ih

theorem Move.advances (h : Move (Step.Plain fun _ => True) session session')
    (hp : session.Proper fun _ => True) : Advances (fun _ => True) session session' := by
  cases h with
  | step hplain => exact Step.advances_run hplain hp
  | name name hid => exact .single (.bind name hid.valid)
  | write limits id level page => exact advances_write trivial id level page
  | settings settings => exact .single (.settings trivial)

/-- A run that assigns marks only is made of advances. -/
theorem Runs.advances (h : Runs (Step.Plain fun _ => True) session session')
    (hp : session.Proper fun _ => True) : Advances (fun _ => True) session session' := by
  induction h with
  | refl => exact .refl
  | tail _ hmove ih => exact ih.trans (hmove.advances (hp.advances ih))

end Session

/-! ## Assignments -/

/-- What a token is and what is right below it, without its texts, its commas and its frame. -/
def Node.outline : Node → Kind × Option Bool × List TokenId
  | group _ forced parts => (.group, forced, parts)
  | node => (node.kind, none, node.below)

/-- An assignment gives a token other marks, or other content of the same outline. -/
inductive Reassign : Store → Store → Prop
  | mark {store : Store} (id : TokenId) (f : Marks → Marks) :
      Reassign store (store.modify id fun entry => { entry with marks := f entry.marks })
  | content {store : Store} {id : TokenId} {entry : Entry} {node : Node}
      (hid : store.find? id = some entry) (hnode : node.outline = entry.node.outline) :
      Reassign store (store.modify id fun entry => { entry with node })

theorem Reassign.size_eq {store store' : Store} (h : Reassign store store') :
    store'.entries.size = store.entries.size := by
  cases h <;> simp [Store.modify]

namespace Build

variable {store : Store}

/-- Only a new body changes the outline of a token. -/
theorem outline_replaceIn {property : Property} {value : Arg} {node node' : Node}
    (hproperty : property ≠ .body) (h : replaceIn property value node = some node') :
    node'.outline = node.outline := by
  cases node with
  | blank | foreign => simp [replaceIn] at h
  | leaf | group =>
    simp only [replaceIn] at h
    split at h
    · obtain rfl := Option.some.inj h
      rfl
    · simp at h
  | bracket frame body =>
    simp only [replaceIn] at h
    split at h
    case h_5 => exact absurd rfl hproperty
    case h_6 => simp at h
    all_goals
      obtain rfl := Option.some.inj h
      rfl

/-- Assigning anything but a body makes such an assignment. -/
theorem Assign.reassign {name : String} {store' : Store} (hname : name ≠ Property.body.name)
    (h : Assign name store store') : Reassign store store' := by
  cases h with
  | mark id f => exact .mark id f
  | @content id entry property value node hfound hid hnode =>
    have hproperty : property ≠ .body := by
      rintro rfl
      have hbeq := List.find?_some hfound
      exact hname (beq_iff_eq.1 hbeq).symm
    exact .content hid (outline_replaceIn hproperty hnode)

end Build

mutual

/-- The step assigns no body to a bracket. -/
def Step.KeepsBody : Step → Prop
  | .set _ property _ => property ≠ Property.body.name
  | .block _ steps => Step.AllKeepBody steps
  | .thread steps => Step.AllKeepBody steps
  | _ => True

/-- None of the steps assigns a body to a bracket. -/
def Step.AllKeepBody : List Step → Prop
  | [] => True
  | step :: steps => step.KeepsBody ∧ Step.AllKeepBody steps

end

/-! ## Turns -/

namespace Session

/-- An advance or an assignment. -/
inductive Turn : Session → Session → Prop
  | advance {session session' : Session} (h : Advance (fun _ => True) session session') :
      Turn session session'
  | assign {session : Session} {store : Store} (h : Reassign session.store store) :
      Turn session { session with store }

/-- A session goes on by turns. -/
abbrev Turns : Session → Session → Prop :=
  Relation.ReflTransGen Turn

variable {session session' : Session}

theorem Proper.turn (hp : session.Proper fun _ => True) (h : Turn session session') :
    session'.Proper fun _ => True := by
  cases h with
  | advance ha => exact hp.advance ha
  | assign hassign =>
    refine ⟨fun name arg hfound => ?_, hp.settings, hp.renderers⟩
    have hvalid := hp.names name arg hfound
    cases arg with
    | token id =>
      rw [Arg.ValidIn, Store.Has] at hvalid ⊢
      rwa [hassign.size_eq]
    | datum value => trivial

theorem Proper.turns (hp : session.Proper fun _ => True) (h : Turns session session') :
    session'.Proper fun _ => True := by
  induction h with
  | refl => exact hp
  | tail _ hturn ih => exact ih.turn hturn

end Session

/-- The terms of steps that assign no body. -/
def Step.bodyTerms : Session.Terms where
  assigned name := name ≠ Property.body.name

namespace Step

theorem AllKeepBody.forall {steps : List Step} (h : AllKeepBody steps) :
    ∀ step ∈ steps, step.KeepsBody := by
  induction steps with
  | nil => simp
  | cons first steps ih => exact List.forall_mem_cons.2 ⟨h.1, ih h.2⟩

theorem policy_keepsBody : Policy bodyTerms KeepsBody where
  permits {step} h := by
    cases step with
    | set _ _ _ => exact h
    | bindRenderer _ _ | render _ _ => exact fun _ _ _ _ => trivial
    | setSettings _ | block _ _ => exact fun _ _ => trivial
    | _ => trivial
  inner {step} h := by
    cases step with
    | block _ _ | thread _ => exact h.forall
    | _ => simp [inner]

end Step

namespace Session

variable {session session' : Session}

/-- Whatever advances a session is a sequence of turns. -/
theorem Advances.turns (h : Advances (fun _ => True) session session') : Turns session session' :=
  Relation.ReflTransGen.mono (fun _ _ => Turn.advance) _ _ h

/-- Each deed is a turn, as long as no body is assigned. -/
theorem Deed.turns (h : Deed Step.bodyTerms session session') : Turns session session' := by
  cases h with
  | work hwork => exact ((hwork trivial).mono fun _ _ => trivial).advances.turns
  | bind name harg => exact .single (.advance (.bind name (harg trivial)))
  | assign hname hassign => exact .single (.assign (hassign.reassign hname))
  | renderer name _ => exact .single (.advance (.renderer name fun _ _ => trivial))

end Session

/-- A step that assigns no body takes a session on by turns, also if it ends with a fault. -/
theorem Step.turns_run {step : Step} {session : Session} (hkeeps : step.KeepsBody)
    (hp : session.Proper fun _ => True) : Session.Turns session (step.run.run session).2 := by
  have hfit : session.Fit bodyTerms := ⟨fun _ => hp.names, trivial, fun _ _ _ => trivial⟩
  have hends := ends_run policy_keepsBody step hkeeps hfit
  have hdeeds : Session.Turns session
      ((step.run.run session).2.withSettings session.settings) :=
    Relation.reflTransGen_closed (fun _ _ => Session.Deed.turns) _ _ hends.deeds
  exact hdeeds.tail (.advance (.settings trivial))

namespace Session

variable {session session' : Session}

theorem Move.turns (h : Move Step.KeepsBody session session')
    (hp : session.Proper fun _ => True) : Turns session session' := by
  cases h with
  | step hkeeps => exact Step.turns_run hkeeps hp
  | name name hid => exact .single (.advance (.bind name hid.valid))
  | write limits id level page => exact (advances_write trivial id level page).turns
  | settings settings => exact .single (.advance (.settings trivial))

/-- A run that assigns no body is made of turns. -/
theorem Runs.turns (h : Runs Step.KeepsBody session session')
    (hp : session.Proper fun _ => True) : Turns session session' := by
  induction h with
  | refl => exact .refl
  | tail _ hmove ih => exact ih.trans (hmove.turns (hp.turns ih))

end Session

end TokenLayout
