import TokenLayout.Recipe
import TokenLayout.Store.Property

/-!
# Scripts

A script works on tokens and plain values by name, under settings that it may change. Its steps
are run one after the other in a `Session`, and each gives a reply or a fault. A step that stops
with a fault keeps what it did before.

Two steps contain others. A block runs them under settings of its own, up to the first
fault. A thread runs them from the default settings. Both leave the settings outside as they were,
and so does a rendering, which is made under settings of its own too (`Action.under`).
-/

namespace TokenLayout

/-- Where the settings of a rendering come from. -/
inductive SettingsChoice where
  /-- Those of the session. -/
  | active
  | given (fields : Fields)
  /-- Those of a renderer, or of the session if it has none. -/
  | renderer (name : String)
deriving DecidableEq, Repr

/-- A step of a script. -/
inductive Step where
  /-- Follows a recipe and binds a name to what it makes. -/
  | bind (name : String) (recipe : Recipe)
  | add (group : String) (part : Recipe)
  | addText (group : String) (text : Datum) (request : MarkRequest)
  | get (name property : String)
  | set (name property : String) (value : Recipe)
  | state (name : String)
  | describe (name : String)
  | walk (recipe : Recipe)
  | measure (recipe : Recipe)
  /-- Renders a token under the settings of the session. A plain value is only written
  out. -/
  | print (name : String)
  | bindRenderer (name : String) (fields : Option Fields)
  | render (recipe : Recipe) (choice : SettingsChoice)
  | getSettings
  | setSettings (fields : Fields)
  | resetSettings
  | block (fields : Fields) (steps : List Step)
  | thread (steps : List Step)

/-- What a step answers. -/
inductive Reply where
  | kind (kind : ValueKind)
  /-- The number of parts a group has now. -/
  | grown (parts : Nat)
  | value (value : Datum)
  | done
  | reports (reports : List Report)
  | description (text : Option String)
  | kinds (kinds : List ValueKind)
  | measured
  | rendered (rendering : Rendering)
  /-- The text of a plain value, for which nothing is logged. -/
  | plain (text : String)
  | settings (settings : Settings)
  /-- The replies of a block up to the fault that ended it, if one did, and the settings after
  it. -/
  | block (replies : List Reply) (fault : Option Fault) (after : Settings)
  /-- What became of the steps of a thread, and the settings outside after it. -/
  | thread (outcomes : List (Except Fault Reply)) (after : Settings)

/-- The state of a script. -/
structure Session where
  store : Store := {}
  names : Names := []
  renderers : List (String × Option Settings) := []
  settings : Settings := {}

/-- Work in a session. -/
abbrev Action := Attempt Session

namespace Action

/-- Works on the store. -/
def building {α : Type} (x : Build α) : Action α :=
  Attempt.within Session.store (fun store session => { session with store }) x

/-- What a name is bound to. -/
def lookup (name : String) : Action Arg := do
  let session ← Attempt.state
  Attempt.require (session.names.lookup name) (.unboundName name)

/-- The token a name is bound to, for its property `property`. Plain values have no properties. -/
def lookupToken (name property : String) : Action TokenId := do
  match ← lookup name with
  | .token id => return id
  | .datum value => Attempt.fail (.noAttribute value.kind property)

/-- Follows a recipe. -/
def make (recipe : Recipe) : Action Arg := do
  let session ← Attempt.state
  building (recipe.build session.names)

/-- The settings of the session. -/
def settings : Action Settings := do
  return (← Attempt.state).settings

/-- Changes the settings of the session. -/
def setSettings (settings : Settings) : Action Unit :=
  Attempt.update fun session => { session with settings }

/-- Does something under settings of its own. Those from before are active again afterwards,
whatever came of it. -/
def under {α : Type} (own : Settings) (x : Action α) : Action α := do
  let outer ← settings
  setSettings own
  let result ← Attempt.outcome x
  setSettings outer
  Attempt.ofExcept result

/-- Renders a value under settings of its own. Decisions are taken under those that are active. -/
def render (own : Settings) (root : Arg) : Action Rendering :=
  under own do
    let active ← settings
    building (Build.render active root)

/-- The group a name is bound to, for an operation `method` that only groups have. -/
def lookupGroup (name method : String) : Action TokenId := do
  let id ← lookupToken name method
  let store := (← Attempt.state).store
  if store.kind id = .group then return id
  else Attempt.fail (.noAttribute (.token (store.kind id)) method)

/-- The number of parts of a group. -/
def partCount (id : TokenId) : Action Nat := do
  match (← Attempt.state).store.find? id with
  | some ⟨_, .group _ _ parts⟩ => return parts.length
  | _ => return 0

/-- The settings to render under. -/
def choose : SettingsChoice → Action Settings
  | .active => settings
  | .given fields => Attempt.ofExcept (Settings.ofFields fields)
  | .renderer name => do
    let session ← Attempt.state
    let own ← Attempt.require (session.renderers.lookup name) (.unboundName name)
    return own.getD session.settings

/-- Settings that may be left to the session. -/
def settings? : Option Fields → Action (Option Settings)
  | none => pure none
  | some fields => do return some (← Attempt.ofExcept (Settings.ofFields fields))

end Action

namespace Step

mutual

/-- Runs a step. -/
def run : Step → Action Reply
  | bind name recipe => do
    let arg ← Action.make recipe
    Attempt.update fun session => { session with names := (name, arg) :: session.names }
    return .kind (← Action.building (Build.kindOf arg))
  | add group part => do
    let id ← Action.lookupGroup group "add"
    let part ← Action.make part
    Action.building (Build.add id part)
    return .grown (← Action.partCount id)
  | addText group text request => do
    let id ← Action.lookupGroup group "add_text"
    Action.building (Build.addText id (.datum text) request)
    return .grown (← Action.partCount id)
  | get name property => do
    let id ← Action.lookupToken name property
    let limits := (← Action.settings).toThresholds
    return .value (← Action.building (Build.getProperty limits id property))
  | set name property value => do
    let owner ← Action.lookup name
    let value ← Action.make value
    Action.building (Build.setProperty owner property value)
    return .done
  | state name => do
    -- A report starts with whether a line may break before the token.
    let id ← Action.lookupToken name Property.breakable.name
    return .reports (← Action.building (Build.reports id))
  | describe name => do
    let root ← Action.lookup name
    return .description (← Action.building (Build.describe? root))
  | walk recipe => do
    let root ← Action.make recipe
    return .kinds (← Action.building (Build.walk root))
  | measure recipe => do
    let root ← Action.make recipe
    Action.building (Build.measure (← Action.settings).toThresholds root)
    return .measured
  | print name => do
    match ← Action.lookup name with
    | .token id => return .rendered (← Action.render (← Action.settings) (.token id))
    | .datum value => return .plain value.plain
  | bindRenderer name fields => do
    let own ← Action.settings? fields
    Attempt.update fun session => { session with renderers := (name, own) :: session.renderers }
    return .done
  | render recipe choice => do
    let root ← Action.make recipe
    let settings ← Action.choose choice
    return .rendered (← Action.render settings root)
  | getSettings => do return .settings (← Action.settings)
  | setSettings fields => do
    Action.setSettings (← Attempt.ofExcept (Settings.ofFields fields))
    return .settings (← Action.settings)
  | resetSettings => do
    Action.setSettings {}
    return .settings (← Action.settings)
  | block fields steps => do
    let own ← Attempt.ofExcept (Settings.ofFields fields)
    let (replies, fault) ← Action.under own (runBlock steps)
    return .block replies fault (← Action.settings)
  | thread steps => do
    let outcomes ← Action.under {} (runAll steps)
    return .thread outcomes (← Action.settings)

/-- Runs steps up to the first fault. -/
def runBlock : List Step → Action (List Reply × Option Fault)
  | [] => pure ([], none)
  | step :: steps => do
    match ← Attempt.outcome step.run with
    | .error fault => return ([], some fault)
    | .ok reply =>
      let (replies, fault) ← runBlock steps
      return (reply :: replies, fault)

/-- Runs steps whatever becomes of each. -/
def runAll : List Step → Action (List (Except Fault Reply))
  | [] => pure []
  | step :: steps => do
    let first ← Attempt.outcome step.run
    let rest ← runAll steps
    return first :: rest

end

end Step

/-- Steps to run one after the other. -/
abbrev Script := List Step

/-- Runs a script from an empty session, and gives what became of each step. -/
def Script.run (script : Script) : List (Except Fault Reply) :=
  match ((Step.runAll script).run {}).1 with
  | .ok outcomes => outcomes
  | .error _ => []

end TokenLayout
