import TokenLayout.Proofs.Deeds
import TokenLayout.Proofs.ReadBack

/-!
# Settings are checked when they are made

Settings are made from values by name. What is asked for is a `Request`: three integers and a text,
of which each has to meet a condition of its field. `Settings.ofFields_of_asks` says what comes of a
request, settings with these values or a fault that names the first field in the order of the checks
whose condition is not met. A dictionary comes to the same as its entries for the four fields
(`Settings.ofDict_of_restricts`).

No settings are made in any other way, so those that are active in a session meet the conditions
too, and so do those of its renderers (`Session.Met.fit`).
-/

namespace TokenLayout

/-! ## Requests -/

/-- Values for the fields of settings, which may be out of range. -/
structure Request where
  indentWidth : Int := 3
  newline : String := "\r\n"
  maxLength : Int := 90
  maxChildren : Int := 5
deriving DecidableEq, Repr

namespace Request

/-- The value for a field. -/
def value (request : Request) : SettingsField → Datum
  | .indentWidth => .int request.indentWidth
  | .newline => .text request.newline
  | .maxLength => .int request.maxLength
  | .maxChildren => .int request.maxChildren

/-- The value for a field is one that it takes: a number that is not negative, or a text that is not
empty and has nothing but carriage returns and line feeds. -/
def Meets (request : Request) : SettingsField → Prop
  | .indentWidth => 0 ≤ request.indentWidth
  | .newline => request.newline ≠ "" ∧ ∀ c ∈ request.newline.toList, c = '\r' ∨ c = '\n'
  | .maxLength => 0 ≤ request.maxLength
  | .maxChildren => 0 ≤ request.maxChildren

instance (request : Request) : DecidablePred request.Meets
  | .indentWidth => inferInstanceAs (Decidable (0 ≤ request.indentWidth))
  | .newline => inferInstanceAs
      (Decidable (request.newline ≠ "" ∧ ∀ c ∈ request.newline.toList, c = '\r' ∨ c = '\n'))
  | .maxLength => inferInstanceAs (Decidable (0 ≤ request.maxLength))
  | .maxChildren => inferInstanceAs (Decidable (0 ≤ request.maxChildren))

/-- The first field whose value it does not take, in the order in which they are checked. -/
def firstBad? (request : Request) : Option SettingsField :=
  [.indentWidth, .maxLength, .maxChildren, .newline].find? fun field => ¬request.Meets field

/-- The settings that are asked for. -/
def settings (request : Request) : Settings where
  indentWidth := request.indentWidth.toNat
  newline := request.newline
  maxLength := request.maxLength.toNat
  maxChildren := request.maxChildren.toNat

/-- The fault of a field that does not take its value. -/
def fault (request : Request) : SettingsField → Fault
  | .indentWidth => .negativeSetting .indentWidth request.indentWidth
  | .newline => .badTerminator (.text request.newline)
  | .maxLength => .negativeSetting .maxLength request.maxLength
  | .maxChildren => .negativeSetting .maxChildren request.maxChildren

/-- The values by the names of their fields. -/
def fields (request : Request) : Fields :=
  SettingsField.all.map fun field => (field.name, request.value field)

/-- There is no first bad field if all fields are as they should be. -/
theorem firstBad?_eq_none_iff (request : Request) :
    request.firstBad? = none ↔ ∀ field, request.Meets field := by
  simp only [firstBad?, List.find?_eq_none, decide_not, Bool.not_eq_true', decide_eq_false_iff_not,
    not_not]
  exact ⟨fun h field => h field (by cases field <;> simp), fun h field _ => h field⟩

theorem get_settings {request : Request} (h : ∀ field, request.Meets field)
    (field : SettingsField) : request.settings.get field = request.value field := by
  cases field with
  | newline => rfl
  | indentWidth => exact congrArg Datum.int (Int.toNat_of_nonneg (h .indentWidth))
  | maxLength => exact congrArg Datum.int (Int.toNat_of_nonneg (h .maxLength))
  | maxChildren => exact congrArg Datum.int (Int.toNat_of_nonneg (h .maxChildren))

/-- A fault of a field carries the name of that field. -/
theorem exists_notice_fault (request : Request) (field : SettingsField) :
    ∃ detail, (request.fault field).notice? = some (.settings field.name detail) := by
  cases field <;> exact ⟨_, rfl⟩

end Request

/-! ## Making settings -/

namespace SettingsField

theorem ofName?_name (field : SettingsField) : ofName? field.name = some field := by
  cases field <;> rfl

/-- Only the names of fields are known. -/
theorem isSome_ofName?_iff {name : String} :
    (ofName? name).isSome = true ↔ ∃ field : SettingsField, field.name = name := by
  constructor
  · intro h
    obtain ⟨field, hfield⟩ := Option.isSome_iff_exists.1 h
    have hbeq := List.find?_some hfield
    exact ⟨field, beq_iff_eq.1 hbeq⟩
  · rintro ⟨field, rfl⟩
    rw [ofName?_name, Option.isSome_some]

end SettingsField

namespace Settings

theorem natural_int (field : SettingsField) (n : Int) :
    natural field (.int n) = if 0 ≤ n then .ok n.toNat else .error (.negativeSetting field n) := by
  rw [natural]
  by_cases hn : n < 0
  · rw [if_pos hn, if_neg (by omega)]
  · rw [if_neg hn, if_pos (by omega)]

theorem terminator_text (request : Request) :
    terminator (request.value .newline) = if request.Meets .newline then .ok request.newline
      else .error (request.fault .newline) := by
  have hends : trimLineEnds request.newline.toList = [] ↔
      ∀ c ∈ request.newline.toList, c = '\r' ∨ c = '\n' := by
    rw [trimLineEnds_eq_nil_iff]
    simp [isLineEnd]
  rw [Request.value, terminator]
  by_cases hmeets : request.Meets .newline
  · rw [if_pos hmeets, if_neg]
    simp [hmeets.1, hends.2 hmeets.2]
  · rw [if_neg hmeets, if_pos]
    · rfl
    by_contra hcond
    simp only [Bool.or_eq_true, Bool.not_eq_true', List.isEmpty_eq_false_iff, not_or, not_not,
      String.isEmpty_iff, ne_eq] at hcond
    exact hmeets ⟨hcond.1, hends.1 hcond.2⟩

theorem unknownName?_eq_none_iff {fields : Fields} : unknownName? fields = none ↔
    ∀ entry ∈ fields, ∃ field : SettingsField, field.name = entry.1 := by
  rw [unknownName?, Option.map_eq_none_iff, List.find?_eq_none]
  refine forall₂_congr fun entry _ => ?_
  rw [← SettingsField.isSome_ofName?_iff, Option.isNone_iff_eq_none,
    ← Option.not_isSome_iff_eq_none, not_not]

end Settings

namespace Fields

/-- The names are those of fields, and the values given, or the defaults where none is, are those of
the request. -/
structure Asks (fields : Fields) (request : Request) : Prop where
  known : ∀ entry ∈ fields, ∃ field : SettingsField, field.name = entry.1
  given : ∀ field, Settings.given fields field = request.value field

theorem asks_fields (request : Request) : request.fields.Asks request where
  known entry hentry := by
    obtain ⟨field, _, rfl⟩ := List.mem_map.1 hentry
    exact ⟨field, rfl⟩
  given field := by cases field <;> rfl

/-- The entries are those of a dictionary for the four fields. -/
structure Restricts (fields dict : Fields) : Prop where
  known : ∀ entry ∈ fields, ∃ field : SettingsField, field.name = entry.1
  lookup : ∀ field : SettingsField, fields.lookup field.name = dict.lookup field.name

/-- The entries of a dictionary for the four fields, in the order given. -/
def restricted (dict : Fields) : Fields :=
  dict.filter fun entry => entry.1 ∈ SettingsField.all.map SettingsField.name

/-- Leaving out other names does not change what a name stands for. -/
theorem lookup_filter {p : String → Bool} (dict : Fields) {name : String} (hname : p name = true) :
    List.lookup name (dict.filter fun entry => p entry.1) = dict.lookup name := by
  induction dict with
  | nil => rfl
  | cons entry dict ih =>
    rw [List.filter_cons, List.lookup_cons]
    split
    · rw [List.lookup_cons, ih]
    · rename_i hskip
      have hne : (name == entry.1) = false := by
        rw [beq_eq_false_iff_ne]
        rintro rfl
        exact hskip hname
      rw [ih, hne]

theorem restricts_filter (dict : Fields) (p : String → Bool)
    (hp : ∀ name, p name = true ↔ ∃ field : SettingsField, field.name = name) :
    Restricts (dict.filter fun entry => p entry.1) dict where
  known entry hentry := (hp entry.1).1 (List.mem_filter.1 hentry).2
  lookup field := lookup_filter dict ((hp field.name).2 ⟨field, rfl⟩)

theorem restricts_restricted (dict : Fields) : dict.restricted.Restricts dict :=
  restricts_filter dict (· ∈ SettingsField.all.map SettingsField.name) fun name => by
    rw [decide_eq_true_eq, List.mem_map]
    exact ⟨fun ⟨field, _, h⟩ => ⟨field, h⟩,
      fun ⟨field, h⟩ => ⟨field, by cases field <;> simp [SettingsField.all], h⟩⟩

end Fields

namespace Settings

/-- What comes of a request. -/
theorem ofFields_of_asks {fields : Fields} {request : Request} (h : fields.Asks request) :
    ofFields fields =
      match request.firstBad? with
      | none => .ok request.settings
      | some field => .error (request.fault field) := by
  have hwidth : natural .indentWidth (request.value .indentWidth) =
      if request.Meets .indentWidth then .ok request.indentWidth.toNat
      else .error (request.fault .indentWidth) := natural_int _ _
  have hlength : natural .maxLength (request.value .maxLength) =
      if request.Meets .maxLength then .ok request.maxLength.toNat
      else .error (request.fault .maxLength) := natural_int _ _
  have hchildren : natural .maxChildren (request.value .maxChildren) =
      if request.Meets .maxChildren then .ok request.maxChildren.toNat
      else .error (request.fault .maxChildren) := natural_int _ _
  rw [ofFields, unknownName?_eq_none_iff.2 h.known]
  simp only [h.given, hwidth, hlength, hchildren, terminator_text, Request.firstBad?]
  -- The first check that fails ends it, and the rest of the fields is not looked at.
  by_cases hw : request.Meets .indentWidth
  · by_cases hl : request.Meets .maxLength
    · by_cases hc : request.Meets .maxChildren
      · by_cases hn : request.Meets .newline
        · simp [bind, pure, Except.bind, Except.pure, hw, hl, hc, hn, Request.settings]
        · simp [bind, Except.bind, hw, hl, hc, hn]
      · simp [bind, Except.bind, hw, hl, hc]
    · simp [bind, Except.bind, hw, hl]
  · simp [bind, Except.bind, hw]

/-- Making settings from values does what the request says, no more and no less: it succeeds exactly
when every field takes its value, with these values, and otherwise the fault is one of settings that
names the first field that does not. -/
structure Exact (fields : Fields) (request : Request) : Prop where
  accepted : (∃ settings, ofFields fields = .ok settings) ↔ ∀ field, request.Meets field
  values : ∀ settings, ofFields fields = .ok settings →
    ∀ field, settings.get field = request.value field
  refused : ∀ fault, ofFields fields = .error fault → ∃ field detail,
    request.firstBad? = some field ∧ fault.notice? = some (.settings field.name detail)

/-- Fields are accepted or refused as the request says that they ask for. -/
theorem exact_of_asks {fields : Fields} {request : Request} (h : fields.Asks request) :
    Exact fields request := by
  have hresult := ofFields_of_asks h
  cases hbad : request.firstBad? with
  | none =>
    have hmeets := request.firstBad?_eq_none_iff.1 hbad
    rw [hbad] at hresult
    refine ⟨⟨fun _ => hmeets, fun _ => ⟨_, hresult⟩⟩, fun settings hok field => ?_,
      fun fault herror => ?_⟩
    · obtain rfl : request.settings = settings := Except.ok.inj (hresult.symm.trans hok)
      exact Request.get_settings hmeets field
    · simp [hresult] at herror
  | some field =>
    rw [hbad] at hresult
    refine ⟨⟨fun ⟨_, hok⟩ => ?_, fun hmeets => ?_⟩, fun settings hok => ?_, fun fault herror => ?_⟩
    · simp [hresult] at hok
    · simp [request.firstBad?_eq_none_iff.2 hmeets] at hbad
    · simp [hresult] at hok
    · obtain rfl : request.fault field = fault := Except.error.inj (hresult.symm.trans herror)
      obtain ⟨detail, hdetail⟩ := request.exists_notice_fault field
      exact ⟨field, detail, hbad, hdetail⟩

/-- Only the entries for the four fields count. -/
theorem ofFields_congr {fields fields' : Fields} (h : unknownName? fields = none)
    (h' : unknownName? fields' = none)
    (hgiven : ∀ field, given fields field = given fields' field) :
    ofFields fields = ofFields fields' := by
  simp only [ofFields, h, h', hgiven]

/-- Unknown names make no difference in a dictionary. -/
theorem ofDict_of_restricts {dict fields : Fields} (h : fields.Restricts dict) :
    ofDict dict = ofFields fields := by
  have hdict : Fields.Restricts
      (dict.filter fun entry => (SettingsField.ofName? entry.1).isSome) dict :=
    Fields.restricts_filter dict _ fun _ => SettingsField.isSome_ofName?_iff
  refine ofFields_congr (unknownName?_eq_none_iff.2 hdict.known)
    (unknownName?_eq_none_iff.2 h.known) fun field => ?_
  rw [given, given, hdict.lookup, h.lookup]

/-! ## Settings that are made -/

/-- The values of settings. -/
def request (settings : Settings) : Request where
  indentWidth := settings.indentWidth
  newline := settings.newline
  maxLength := settings.maxLength
  maxChildren := settings.maxChildren

/-- Every field has a value that it takes. -/
def Valid (settings : Settings) : Prop :=
  ∀ field, settings.request.Meets field

theorem valid_of_meets_newline {settings : Settings} (h : settings.request.Meets .newline) :
    settings.Valid
  | .indentWidth => Int.natCast_nonneg _
  | .newline => h
  | .maxLength => Int.natCast_nonneg _
  | .maxChildren => Int.natCast_nonneg _

/-- Whatever fields are given, settings that come of them are valid. -/
theorem valid_of_ofFields {fields : Fields} {settings : Settings}
    (h : ofFields fields = .ok settings) : settings.Valid := by
  obtain ⟨hne, hends⟩ := lineEnds_of_ofFields h
  refine valid_of_meets_newline ⟨fun hempty => hne ?_, fun c hc => ?_⟩
  · rw [show settings.newline = "" from hempty, String.toList_empty]
  · simpa [isLineEnd] using hends c hc

theorem valid_default : ({} : Settings).Valid :=
  valid_of_meets_newline (by simp [request, Request.Meets])

end Settings

/-! ## The states of a run -/

namespace Session

/-- A session that is met in the course of a run: at its start and after each of its steps, while a
step works on the tokens, and where a block, a thread or a renderer starts under settings of its
own, from which the steps of a block or a thread go on. -/
inductive Met : Session → Prop
  | start : Met {}
  | step {session : Session} (step : Step) : Met session → Met (step.run.run session).2
  | work {session : Session} (store : Store) (names : Names) :
      Met session → Met { session with store, names }
  | block {session : Session} {fields : Fields} {own : Settings}
      (hown : Settings.ofFields fields = .ok own) : Met session → Met (session.withSettings own)
  | thread {session : Session} : Met session → Met (session.withSettings {})
  | render {session : Session} {choice : SettingsChoice} {own : Settings}
      (hown : ((Action.choose choice).run session).1 = .ok own) :
      Met session → Met (session.withSettings own)

/-- The terms on which a session goes on whose settings are valid, whatever its names. -/
def validTerms : Terms where
  sound := False
  made := Settings.Valid

/-- So nothing has to be asked of the fields of a step. -/
theorem makes_validTerms (fields : Fields) : validTerms.Makes fields :=
  fun _ => Settings.valid_of_ofFields

/-- The settings of the session and of its renderers are valid. -/
theorem Met.fit {session : Session} (h : session.Met) : session.Fit validTerms := by
  have hpolicy : Step.Policy validTerms fun _ => True :=
    Step.policy_any makes_validTerms Settings.valid_default fun _ => trivial
  induction h with
  | start => exact ⟨False.elim, Settings.valid_default, by simp⟩
  | step step _ ih =>
    exact (Step.ends_run hpolicy step trivial ih).fit (hpolicy.permits trivial) ih
  | work store names _ ih => exact ⟨False.elim, ih.settings, ih.renderers⟩
  | block hown _ ih => exact ih.withSettings (Settings.valid_of_ofFields hown)
  | thread _ ih => exact ih.withSettings Settings.valid_default
  | render hown _ ih =>
    refine ih.withSettings ((Action.leads_choose ih ?_).2 _ hown)
    exact fun fields _ => makes_validTerms fields

end Session

/-- Settings are checked exactly, whichever way they are made, and so those that are active in a run
are valid at every moment. -/
theorem Settings.validated_exactly :
    (∀ (fields : Fields) (request : Request), fields.Asks request → Exact fields request) ∧
    (∀ request : Request, request.fields.Asks request) ∧
    (∀ dict fields : Fields, fields.Restricts dict → ofDict dict = ofFields fields) ∧
    (∀ dict : Fields, dict.restricted.Restricts dict) ∧
    (∀ (fields : Fields) (settings : Settings), ofFields fields = .ok settings → settings.Valid) ∧
    ∀ session : Session, session.Met → session.settings.Valid :=
  ⟨fun _ _ => exact_of_asks, Fields.asks_fields, fun _ _ => ofDict_of_restricts,
    Fields.restricts_restricted, fun _ _ => valid_of_ofFields, fun _ h => h.fit.settings⟩

/-- Two fields with values out of range, the one that is checked last given first, and a dictionary
with these values and one more entry. The run that has narrower settings is met in a block of its
own. -/
theorem Settings.validated_exactly_two_bad :
    let request : Request := { newline := "\r;\n", maxLength := 0, maxChildren := -1 }
    let fields : Fields :=
      [("newline", .text "\r;\n"), ("max_children", .int (-1)), ("max_line_length", .int 0)]
    let narrow : Session := ((Step.setSettings [("indent_width", .int 1)]).run.run {}).2
    fields.Asks request ∧ request.firstBad? = some .maxChildren ∧ Exact fields request ∧
      fields.Restricts (("color", .int 7) :: fields) ∧
      ofDict (("color", .int 7) :: fields) = ofFields fields ∧
      narrow.settings.indentWidth = 1 ∧
      (narrow.withSettings { newline := "\r\r" }).Met ∧
      (narrow.withSettings { newline := "\r\r" }).settings.Valid := by
  intro request fields narrow
  have hasks : fields.Asks request := by
    refine ⟨fun entry hentry => ?_, fun field => by cases field <;> rfl⟩
    simp only [fields, List.mem_cons, List.not_mem_nil, or_false] at hentry
    rcases hentry with rfl | rfl | rfl
    exacts [⟨.newline, rfl⟩, ⟨.maxChildren, rfl⟩, ⟨.maxLength, rfl⟩]
  have hrestricts : fields.Restricts (("color", .int 7) :: fields) :=
    ⟨hasks.known, fun field => by cases field <;> rfl⟩
  have hmet : (narrow.withSettings { newline := "\r\r" }).Met :=
    .block (show ofFields [("newline", .text "\r\r")] = .ok { newline := "\r\r" } by decide +kernel)
      (.step _ .start)
  obtain ⟨hexact, _, hdict, _, _, hactive⟩ := Settings.validated_exactly
  exact ⟨hasks, by decide +kernel, hexact _ _ hasks, hrestricts, hdict _ _ hrestricts,
    by decide +kernel, hmet, hactive _ hmet⟩

end TokenLayout
