import TokenLayout.Proofs.Deeds

/-!
# Settings are scoped

What is done under settings of its own does not see the settings that are active around it, and
leaves them as they are (`Action.blind_under`). Renderings, blocks and threads are done so, whatever
they contain and however they end. Of all steps only two change the settings of the session, and
only if they stand in the script itself and not in a block or a thread of it
(`Step.exists_runAll`). `Session.settings_scoped` puts this together.
-/

namespace TokenLayout

namespace Action

open Attempt

variable {α β : Type}

/-! ## Actions that do not see the settings -/

/-- The action gives the same and does the same whatever settings are active, and leaves them
active. -/
def Blind (x : Action α) : Prop :=
  ∀ (session : Session) (active : Settings), x.run (session.withSettings active) =
    ((x.run session).1, (x.run session).2.withSettings active)

theorem blind_pure (a : α) : Blind (pure a) :=
  fun _ _ => rfl

theorem blind_ofExcept (result : Except Fault α) : Blind (ofExcept result) :=
  fun _ _ => rfl

theorem Blind.bind {x : Action α} {f : α → Action β} (hx : Blind x) (hf : ∀ a, Blind (f a)) :
    Blind (x >>= f) := by
  intro session active
  rw [run_bind, run_bind, hx session active]
  rcases x.run session with ⟨_ | a, session'⟩
  · rfl
  · exact hf a session' active

theorem blind_make (recipe : Recipe) : Blind (make recipe) :=
  fun _ _ => rfl

/-- What is done under settings of its own does not see those around it. -/
theorem blind_under (own : Settings) (x : Action α) : Blind (under own x) :=
  fun session active => by rw [run_under, run_under]; rfl

theorem run_choose_renderer {session : Session} {name : String} {own : Settings}
    (hname : session.renderers.lookup name = some (some own)) :
    (choose (.renderer name)).run session = (.ok own, session) := by
  simp [choose, run_bind, hname, require]

end Action

/-! ## Steps -/

namespace Step

open Attempt TokenLayout.Action

/-- A step leaves the settings as they are, whatever is in it and however it ends, unless it is one
of the two that change them. -/
theorem settings_run (session : Session) (step : Step) :
    (step.run.run session).2.settings = settingsAfter session.settings step := by
  -- Nothing is asked of the session and of the step.
  let terms : Session.Terms := { sound := False }
  have hfit : session.Fit terms := ⟨False.elim, trivial, fun _ _ _ => trivial⟩
  have hpolicy : Policy terms fun _ => True :=
    policy_any (fun _ _ _ => trivial) trivial fun _ => trivial
  exact (ends_run hpolicy step trivial hfit).settings

/-- A block comes to an end, with or without a fault. -/
theorem exists_runBlock (steps : List Step) (session : Session) : ∃ replies fault after,
    (runBlock steps).run session = (.ok (replies, fault), after) := by
  induction steps generalizing session with
  | nil => exact ⟨[], none, session, rfl⟩
  | cons step steps ih =>
    rw [runBlock, run_bind, run_outcome]
    dsimp only
    rcases step.run.run session with ⟨fault | reply, after⟩
    · exact ⟨[], some fault, after, rfl⟩
    · obtain ⟨replies, fault, after', hrun⟩ := ih after
      exact ⟨reply :: replies, fault, after', by simp [run_bind, hrun]⟩

/-- A script comes to an end, and leaves the settings that its own steps have set. -/
theorem exists_runAll (steps : List Step) (session : Session) : ∃ outcomes after,
    (runAll steps).run session = (.ok outcomes, after) ∧
      after.settings = steps.foldl settingsAfter session.settings := by
  induction steps generalizing session with
  | nil => exact ⟨[], session, rfl, rfl⟩
  | cons step steps ih =>
    obtain ⟨outcomes, after, hrun, hafter⟩ := ih (step.run.run session).2
    refine ⟨(step.run.run session).1 :: outcomes, after, ?_, ?_⟩
    · rw [runAll, run_bind, run_outcome]
      simp [run_bind, hrun]
    · rw [hafter, settings_run, List.foldl_cons]

theorem run_block {fields : Fields} {own : Settings} (hown : Settings.ofFields fields = .ok own)
    (steps : List Step) (session : Session) : ∃ replies fault after,
      (runBlock steps).run (session.withSettings own) = (.ok (replies, fault), after) ∧
      (block fields steps).run.run session =
        (.ok (.block replies fault session.settings), after.withSettings session.settings) := by
  obtain ⟨replies, fault, after, hrun⟩ := exists_runBlock steps (session.withSettings own)
  refine ⟨replies, fault, after, hrun, ?_⟩
  rw [run, run_bind, run_ofExcept, hown]
  dsimp only
  rw [run_bind, run_under, hrun]
  rfl

theorem run_thread (steps : List Step) (session : Session) : ∃ outcomes after,
    (runAll steps).run (session.withSettings {}) = (.ok outcomes, after) ∧
      (thread steps).run.run session =
        (.ok (.thread outcomes session.settings), after.withSettings session.settings) := by
  obtain ⟨outcomes, after, hrun, -⟩ := exists_runAll steps (session.withSettings {})
  refine ⟨outcomes, after, hrun, ?_⟩
  rw [run, run_bind, run_under, hrun]
  rfl

/-- The rest of a rendering, once its settings are chosen. -/
theorem blind_rendered (own : Settings) (root : Arg) :
    Blind (do return Reply.rendered (← Action.render own root)) :=
  (blind_under own _).bind fun _ => blind_pure _

theorem blind_render_given (recipe : Recipe) (fields : Fields) :
    Blind (render recipe (.given fields)).run := by
  rw [run]
  exact (blind_make recipe).bind fun root => (blind_ofExcept _).bind fun own =>
    blind_rendered own root

/-- A renderer with settings of its own does not see those of the session. -/
theorem run_render_renderer {session : Session} {name : String} {own : Settings}
    (hname : session.renderers.lookup name = some (some own)) (recipe : Recipe)
    (active : Settings) :
    (render recipe (.renderer name)).run.run (session.withSettings active) =
      (((render recipe (.renderer name)).run.run session).1,
        ((render recipe (.renderer name)).run.run session).2.withSettings active) := by
  rw [run, run_bind, run_bind, blind_make recipe session active]
  rcases hmake : (make recipe).run session with ⟨_ | root, session'⟩
  · rfl
  · have hname' : session'.renderers.lookup name = some (some own) := by
      rw [← hname]
      exact congrArg (fun made => made.2.renderers.lookup name) hmake.symm
    have hactive : (session'.withSettings active).renderers.lookup name = some (some own) := hname'
    dsimp only
    rw [run_bind, run_bind, run_choose_renderer hname', run_choose_renderer hactive]
    exact blind_rendered own root session' active

end Step

/-- The settings of a session are scoped. -/
structure Session.Scoped (session : Session) : Prop where
  /-- Whatever is done under settings of its own, in one scope or in several, is done from a session
  that has them, and comes to the same. Afterwards the settings are those from before, also if a
  fault passes through. -/
  under : ∀ {α : Type} (own : Settings) (x : Action α), (Action.under own x).run session =
    ((x.run (session.withSettings own)).1,
      (x.run (session.withSettings own)).2.withSettings session.settings)
  /-- A block runs from its own settings, up to the first fault if there is one. Afterwards the
  settings are those from before. -/
  block : ∀ fields steps own, Settings.ofFields fields = .ok own → ∃ replies fault after,
    (Step.runBlock steps).run (session.withSettings own) = (.ok (replies, fault), after) ∧
      (Step.block fields steps).run.run session =
        (.ok (.block replies fault session.settings), after.withSettings session.settings)
  /-- A thread runs from the default settings, and has no part in those outside. -/
  thread : ∀ steps, ∃ outcomes after,
    (Step.runAll steps).run (session.withSettings {}) = (.ok outcomes, after) ∧
      (Step.thread steps).run.run session =
        (.ok (.thread outcomes session.settings), after.withSettings session.settings)
  /-- After any step, also one that stops with a fault, the settings are those from before unless
  the step itself is to set them. -/
  step : ∀ step : Step,
    (step.run.run session).2.settings = step.settingsAfter session.settings
  /-- After a script the settings are those that its own steps have set, whatever their blocks and
  threads contain. -/
  script : ∀ steps : List Step, ∃ outcomes after,
    (Step.runAll steps).run session = (.ok outcomes, after) ∧
      after.settings = steps.foldl Step.settingsAfter session.settings
  /-- A rendering under settings that are given comes to the same reply, the text and what is logged
  for it or a fault, and does the same to the store, whatever settings are active. -/
  given : ∀ recipe fields active, let step := Step.render recipe (.given fields)
    step.run.run (session.withSettings active) =
      ((step.run.run session).1, (step.run.run session).2.withSettings active)
  /-- So does one by a renderer that has settings. -/
  renderer : ∀ recipe name own active, session.renderers.lookup name = some (some own) →
    let step := Step.render recipe (.renderer name)
    step.run.run (session.withSettings active) =
      ((step.run.run session).1, (step.run.run session).2.withSettings active)

/-- Every session scopes its settings, whatever it holds and whatever is run in it. -/
theorem Session.settings_scoped (session : Session) : session.Scoped where
  under own x := Action.run_under own x session
  block _ steps _ hown := Step.run_block hown steps session
  thread steps := Step.run_thread steps session
  step step := Step.settings_run session step
  script steps := Step.exists_runAll steps session
  given recipe fields active := Step.blind_render_given recipe fields session active
  renderer recipe _ _ active hname := Step.run_render_renderer hname recipe active

/-- A block changes its settings, resets them in a thread and in an inner block that fails, and then
fails itself. -/
theorem Session.settings_scoped_nested :
    let session : Session := { settings := { maxLength := 7 } }
    let steps : List Step := [.setSettings [("indent_width", .int 2)], .thread [.resetSettings],
      .block [] [.resetSettings, .print "x"], .print "x", .resetSettings]
    Settings.ofFields [("max_children", .int 1)] = .ok { maxChildren := 1 } ∧
      ∃ replies fault after, (Step.block [("max_children", .int 1)] steps).run.run session =
        (.ok (.block replies (some fault) { maxLength := 7 }), after) ∧
          after.settings = { maxLength := 7 } := by
  intro session steps
  have hown : Settings.ofFields [("max_children", .int 1)] = .ok { maxChildren := 1 } := rfl
  obtain ⟨replies, fault, after, hrun, hblock⟩ := session.settings_scoped.block _ steps _ hown
  have hfails : ((Step.runBlock steps).run
      (session.withSettings { maxChildren := 1 })).1.toOption.map (fun ended => ended.2.isSome) =
        some true := by
    decide +kernel
  rw [hrun] at hfails
  obtain ⟨fault, rfl⟩ := Option.isSome_iff_exists.1 (Option.some.inj hfails)
  exact ⟨hown, replies, fault, _, hblock, rfl⟩

end TokenLayout
