import TokenLayout.Proofs.FlatText
import TokenLayout.Proofs.Quoting
import TokenLayout.Token.Printer

/-!
# Descriptions tell tokens apart

The description of a token is a call whose arguments stand in a row: quoted texts, descriptions of
the tokens below it, and last its properties, which hold no comma and no parenthesis. Each of these
says where it ends, so a description with anything behind it comes from one structure and one rest
only (`Token.describe?_append_inj`). Two tokens then have the same description exactly if they
differ in nothing but the numbers of the tokens in them.
-/

namespace TokenLayout

/-! ## Rows -/

/-- Arguments behind the first one, the bracket that closes the row, and what is behind it. -/
def trailing (close : Char) (args : List String) (rest : List Char) : List Char :=
  args.flatMap (fun arg => ',' :: ' ' :: arg.toList) ++ close :: rest

/-- Arguments in a row, the bracket that closes it, and what is behind it. -/
def row (close : Char) (args : List String) (rest : List Char) : List Char :=
  (String.intercalate ", " args).toList ++ close :: rest

section Rows

variable {close : Char} {arg arg' : String} {args args' : List String} {rest rest' : List Char}

@[simp] theorem trailing_nil : trailing close [] rest = close :: rest :=
  rfl

@[simp] theorem trailing_cons : trailing close (arg :: args) rest =
    ',' :: ' ' :: (arg.toList ++ trailing close args rest) := by
  simp [trailing]

@[simp] theorem row_nil : row close [] rest = close :: rest := by
  simp [row]

@[simp] theorem row_cons : row close (arg :: args) rest =
    arg.toList ++ trailing close args rest := by
  induction args generalizing arg with
  | nil => simp [row]
  | cons next args ih =>
    have hnext : row close (next :: args) rest = next.toList ++ trailing close args rest := ih
    simp only [row, String.intercalate_cons_cons, String.toList_append, List.append_assoc]
      at hnext ⊢
    rw [hnext]
    simp

theorem bracketed_append : ("[" ++ String.intercalate ", " args ++ "]").toList ++ rest =
    '[' :: row ']' args rest := by
  simp [row]

/-- The argument has a first character, and it is not the bracket that closes the row. -/
def Opens (close : Char) (arg : String) : Prop :=
  ∃ c cs, arg.toList = c :: cs ∧ c ≠ close

/-- Whether a row is empty shows at its start, so it can be read as if a comma stood before it. -/
theorem trailing_eq_of_row_eq (hopen : ∀ arg ∈ args, Opens close arg)
    (hopen' : ∀ arg ∈ args', Opens close arg) (h : row close args rest = row close args' rest') :
    trailing close args rest = trailing close args' rest' := by
  rcases args with _ | ⟨arg, args⟩ <;> rcases args' with _ | ⟨arg', args'⟩
  · simpa using h
  · obtain ⟨c, cs, heq, hne⟩ := hopen' arg' List.mem_cons_self
    rw [row_nil, row_cons, heq, List.cons_append] at h
    exact absurd (List.cons.inj h).1.symm hne
  · obtain ⟨c, cs, heq, hne⟩ := hopen arg List.mem_cons_self
    rw [row_nil, row_cons, heq, List.cons_append] at h
    exact absurd (List.cons.inj h).1 hne
  · rw [row_cons, row_cons] at h
    rw [trailing_cons, trailing_cons, h]

/-! ## Plain arguments -/

/-- The characters that may follow an argument of a call. -/
def isStop (c : Char) : Bool :=
  c == ',' || c == ')'

/-- An argument that holds no character that could end it. -/
structure Plain (arg : String) : Prop where
  ne_empty : arg ≠ ""
  not_stop : ∀ c ∈ arg.toList, !isStop c

theorem Plain.opens (h : Plain arg) : Opens ')' arg := by
  have hne : arg.toList ≠ [] := fun hnil => h.ne_empty (by simpa using hnil)
  obtain ⟨c, cs, heq⟩ := List.exists_cons_of_ne_nil hne
  have hc := h.not_stop c (by rw [heq]; exact List.mem_cons_self)
  exact ⟨c, cs, heq, by rintro rfl; simp [isStop] at hc⟩

/-- What follows an argument starts with a character that no plain argument has. -/
theorem exists_trailing_eq_cons (args : List String) (rest : List Char) :
    ∃ c cs, trailing ')' args rest = c :: cs ∧ isStop c := by
  rcases args with _ | ⟨arg, args⟩
  · exact ⟨')', rest, trailing_nil, rfl⟩
  · exact ⟨',', _, trailing_cons, rfl⟩

/-- A plain argument is what stands before the first such character. -/
theorem Plain.takeWhile (h : Plain arg) (args : List String) (rest : List Char) :
    (arg.toList ++ trailing ')' args rest).takeWhile (fun c => !isStop c) = arg.toList := by
  obtain ⟨c, cs, heq, hc⟩ := exists_trailing_eq_cons args rest
  rw [List.takeWhile_append_of_pos h.not_stop, heq, List.takeWhile_cons_of_neg (by simp [hc]),
    List.append_nil]

/-- So its end can be told from what follows. -/
theorem Plain.append_inj (h : Plain arg) (h' : Plain arg')
    (heq : arg.toList ++ trailing ')' args rest = arg'.toList ++ trailing ')' args' rest') :
    arg = arg' ∧ trailing ')' args rest = trailing ')' args' rest' := by
  have harg : arg.toList = arg'.toList := by
    rw [← h.takeWhile args rest, heq, h'.takeWhile args' rest']
  rw [harg] at heq
  exact ⟨String.toList_inj.1 harg, List.append_cancel_left heq⟩

/-- A row of plain arguments can be read back, and so can what follows it. -/
theorem trailing_inj (h : ∀ arg ∈ args, Plain arg) (h' : ∀ arg ∈ args', Plain arg)
    (heq : trailing ')' args rest = trailing ')' args' rest') : args = args' ∧ rest = rest' := by
  induction args generalizing args' with
  | nil =>
    rcases args' with _ | ⟨arg', args'⟩
    · exact ⟨rfl, by simpa using heq⟩
    · simp at heq
  | cons arg args ih =>
    rcases args' with _ | ⟨arg', args'⟩
    · simp at heq
    · simp only [trailing_cons, List.cons.injEq, true_and] at heq
      obtain ⟨rfl, htail⟩ := (h arg (by simp)).append_inj (h' arg' (by simp)) heq
      obtain ⟨rfl, hrest⟩ :=
        ih (fun a ha => h a (by simp [ha])) (fun a ha => h' a (by simp [ha])) htail
      exact ⟨rfl, hrest⟩

end Rows

/-! ## Properties -/

theorem plain_flagged {name : String} (h : Plain (name ++ "=True")) (value : Bool) :
    ∀ arg ∈ flagged name value, Plain arg := by
  cases value <;> simp [flagged, h]

theorem plain_describedForced (forced : Option Bool) :
    ∀ arg ∈ describedForced forced, Plain arg := by
  have htrue : Plain "multi_line=True" := ⟨by simp, by simp [isStop]⟩
  have hfalse : Plain "multi_line=False" := ⟨by simp, by simp [isStop]⟩
  rcases forced with _ | _ | _
  · simp [describedForced]
  · simpa [describedForced] using hfalse
  · simpa [describedForced] using htrue

theorem plain_inset (n : Nat) : Plain ("split_indent=" ++ toString n) := by
  refine ⟨by simp, fun c hc => ?_⟩
  rw [String.toList_append, List.mem_append] at hc
  rcases hc with hc | hc
  · revert c
    simp [isStop]
  · rw [Nat.toString_eq_ofList_toDigits, String.toList_ofList] at hc
    have hdigit : c.isDigit = true := Nat.isDigit_of_mem_toDigits (by decide) (by decide) hc
    have hcomma : c ≠ ',' := fun h => absurd (h ▸ hdigit) (by decide)
    have hparen : c ≠ ')' := fun h => absurd (h ▸ hdigit) (by decide)
    simp [isStop, hcomma, hparen]

theorem Marks.plain_described (marks : Marks) : ∀ arg ∈ marks.described, Plain arg := by
  intro arg harg
  rcases List.mem_append.1 harg with h | h
  · exact plain_flagged ⟨by simp, by simp [isStop]⟩ _ arg h
  · split_ifs at h
    · simp at h
    · rw [List.mem_singleton.1 h]
      exact plain_inset _

theorem plain_group_properties (commas : Bool) (forced : Option Bool) (marks : Marks) :
    ∀ arg ∈ flagged "add_commas" commas ++ describedForced forced ++ marks.described,
      Plain arg := by
  refine List.forall_mem_append.2 ⟨List.forall_mem_append.2 ⟨?_, ?_⟩, marks.plain_described⟩
  · exact plain_flagged ⟨by simp, by simp [isStop]⟩ commas
  · exact plain_describedForced forced

theorem plain_bracket_properties (ownLine bareSingle : Bool) (marks : Marks) :
    ∀ arg ∈ flagged "new_line_before" ownLine ++
      flagged "omit_brackets_for_single" bareSingle ++ marks.described, Plain arg := by
  refine List.forall_mem_append.2 ⟨List.forall_mem_append.2 ⟨?_, ?_⟩, marks.plain_described⟩
  · exact plain_flagged ⟨by simp, by simp [isStop]⟩ ownLine
  · exact plain_flagged ⟨by simp, by simp [isStop]⟩ bareSingle

theorem flagged_append_inj {name : String} {value value' : Bool} {args args' : List String}
    (hname : name ++ "=True" ∉ args) (hname' : name ++ "=True" ∉ args')
    (h : flagged name value ++ args = flagged name value' ++ args') :
    value = value' ∧ args = args' := by
  cases value <;> cases value' <;>
    simp only [flagged, Bool.false_eq_true, if_true, if_false, List.nil_append,
      List.singleton_append] at h
  · exact ⟨rfl, h⟩
  · exact absurd (h ▸ List.mem_cons_self) hname
  · exact absurd (h ▸ List.mem_cons_self) hname'
  · exact ⟨rfl, (List.cons.inj h).2⟩

/-- The marks have two texts of their own and no other. -/
theorem Marks.not_mem_described {arg : String} (hne : arg ≠ "splittable=True")
    (hinset : ¬"split_indent=".toList <+: arg.toList) (marks : Marks) :
    arg ∉ marks.described := by
  intro h
  rcases List.mem_append.1 h with h | h
  · cases hb : marks.breakable <;> simp_all [flagged]
  · split_ifs at h
    · simp at h
    · rw [List.mem_singleton.1 h, String.toList_append] at hinset
      exact hinset (List.prefix_append _ _)

/-- The marks are read off their arguments. -/
theorem Marks.described_injective {marks marks' : Marks}
    (h : marks.described = marks'.described) : marks = marks' := by
  have hname : ∀ n : Nat, "splittable" ++ "=True" ∉
      if n = 0 then [] else ["split_indent=" ++ toString n] := by
    intro n
    split_ifs
    · simp
    · simp [← String.toList_inj]
  obtain ⟨hbreakable, hargs⟩ := flagged_append_inj (hname _) (hname _) h
  have hinset : marks.inset = marks'.inset := by
    split_ifs at hargs with hzero hzero' hzero'
    · rw [hzero, hzero']
    · have htext := (List.cons.inj hargs).1
      rw [String.append_right_inj, Nat.toString_eq_ofList_toDigits,
        Nat.toString_eq_ofList_toDigits, String.ofList_inj] at htext
      rw [← Nat.ofDigitChars_ten_toDigits (n := marks.inset), htext,
        Nat.ofDigitChars_ten_toDigits]
  cases marks
  cases marks'
  congr

theorem describedForced_append_inj {forced forced' : Option Bool} {marks marks' : Marks}
    (h : describedForced forced ++ marks.described =
      describedForced forced' ++ marks'.described) :
    forced = forced' ∧ marks.described = marks'.described := by
  have hname : ∀ (value : Bool) (marks : Marks),
      "multi_line=" ++ (if value then "True" else "False") ∉ marks.described := by
    intro value
    cases value <;> exact Marks.not_mem_described (by decide) (by decide)
  rcases forced with _ | value <;> rcases forced' with _ | value'
  · exact ⟨rfl, h⟩
  · have hargs : marks.described = _ :: marks'.described := h
    exact absurd (hargs ▸ List.mem_cons_self) (hname value' marks)
  · have hargs : _ :: marks.described = marks'.described := h
    exact absurd (hargs ▸ List.mem_cons_self) (hname value marks')
  · obtain ⟨hvalue, hargs⟩ := List.cons.inj h
    refine ⟨?_, hargs⟩
    cases value <;> cases value' <;> first | rfl | exact absurd hvalue (by decide)

theorem group_properties_inj {commas commas' : Bool} {forced forced' : Option Bool}
    {marks marks' : Marks}
    (h : flagged "add_commas" commas ++ describedForced forced ++ marks.described =
      flagged "add_commas" commas' ++ describedForced forced' ++ marks'.described) :
    commas = commas' ∧ forced = forced' ∧ marks = marks' := by
  have hcommas : ∀ (forced : Option Bool) (marks : Marks),
      "add_commas" ++ "=True" ∉ describedForced forced ++ marks.described := by
    intro forced marks hmem
    rcases List.mem_append.1 hmem with hmem | hmem
    · rcases forced with _ | _ | _ <;> simp [describedForced] at hmem
    · exact marks.not_mem_described (by decide) (by decide) hmem
  rw [List.append_assoc, List.append_assoc] at h
  obtain ⟨rfl, hargs⟩ := flagged_append_inj (hcommas _ _) (hcommas _ _) h
  obtain ⟨rfl, hmarks⟩ := describedForced_append_inj hargs
  exact ⟨rfl, rfl, Marks.described_injective hmarks⟩

theorem bracket_properties_inj {ownLine ownLine' bareSingle bareSingle' : Bool}
    {marks marks' : Marks}
    (h : flagged "new_line_before" ownLine ++ flagged "omit_brackets_for_single" bareSingle ++
        marks.described =
      flagged "new_line_before" ownLine' ++ flagged "omit_brackets_for_single" bareSingle' ++
        marks'.described) :
    ownLine = ownLine' ∧ bareSingle = bareSingle' ∧ marks = marks' := by
  have hbare : ∀ marks : Marks, "omit_brackets_for_single" ++ "=True" ∉ marks.described :=
    Marks.not_mem_described (by decide) (by decide)
  have hown : ∀ (bareSingle : Bool) (marks : Marks), "new_line_before" ++ "=True" ∉
      flagged "omit_brackets_for_single" bareSingle ++ marks.described := by
    intro bareSingle marks hmem
    rcases List.mem_append.1 hmem with hmem | hmem
    · cases bareSingle <;> simp [flagged] at hmem
    · exact marks.not_mem_described (by decide) (by decide) hmem
  rw [List.append_assoc, List.append_assoc] at h
  obtain ⟨rfl, hargs⟩ := flagged_append_inj (hown _ _) (hown _ _) h
  obtain ⟨rfl, hmarks⟩ := flagged_append_inj (hbare _) (hbare _) hargs
  exact ⟨rfl, rfl, Marks.described_injective hmarks⟩

/-! ## Calls -/

/-- The name of a kind and the parenthesis behind it say where the name ends. -/
theorem Kind.name_append_inj {kind kind' : Kind} {rest rest' : List Char}
    (h : kind.name.toList ++ '(' :: rest = kind'.name.toList ++ '(' :: rest') :
    kind = kind' ∧ rest = rest' := by
  cases kind <;> cases kind' <;> simp_all [Kind.name]

theorem Kind.exists_name_eq_cons (kind : Kind) :
    ∃ c cs, kind.name.toList = c :: cs ∧ c ≠ ']' := by
  cases kind <;> simp [Kind.name]

theorem callText_append (kind : Kind) (args : List String) (rest : List Char) :
    (callText kind args).toList ++ rest = kind.name.toList ++ '(' :: row ')' args rest := by
  simp [callText, row]

/-- The kind of a token is the name before the first parenthesis. -/
theorem callText_append_inj {kind kind' : Kind} {args args' : List String}
    {rest rest' : List Char}
    (h : (callText kind args).toList ++ rest = (callText kind' args').toList ++ rest') :
    kind = kind' ∧ row ')' args rest = row ')' args' rest' := by
  rw [callText_append, callText_append] at h
  exact Kind.name_append_inj h

/-- A description starts with a name and never with a closing bracket. -/
theorem opens_callText (kind : Kind) (args : List String) : Opens ']' (callText kind args) := by
  obtain ⟨c, cs, heq, hne⟩ := kind.exists_name_eq_cons
  have htext := callText_append kind args []
  rw [heq, List.append_nil, List.cons_append] at htext
  exact ⟨c, _, htext, hne⟩

/-! ## Tokens -/

theorem Tag.unnumbered_eq_iff {tag tag' : Tag} :
    tag.unnumbered = tag'.unnumbered ↔ tag.toMarks = tag'.toMarks := by
  simp [unnumbered]

namespace Token

/-- Every separator of the tree has the text it is made with. -/
def Separated (token : Token) : Prop :=
  token.Every fun t => ∀ tag text, t = leaf tag .separator text → text = separatorText

theorem Separated.text_eq {tag : Tag} {text : String}
    (h : (leaf tag .separator text).Separated) : text = separatorText :=
  Every.root h tag text rfl

theorem anonymous_leaf_eq_iff {tag tag' : Tag} {role role' : LeafRole} {text text' : String} :
    (leaf tag role text).anonymous = (leaf tag' role' text').anonymous ↔
      tag.toMarks = tag'.toMarks ∧ role = role' ∧ text = text' := by
  simp [anonymous, mapTag, Tag.unnumbered_eq_iff]

theorem anonymous_group_eq_iff {tag tag' : Tag} {commas commas' : Bool}
    {forced forced' : Option Bool} {parts parts' : List Token} :
    (group tag commas forced parts).anonymous = (group tag' commas' forced' parts').anonymous ↔
      tag.toMarks = tag'.toMarks ∧ commas = commas' ∧ forced = forced' ∧
        parts.map anonymous = parts'.map anonymous := by
  have hparts : ∀ ts : List Token, ts.map anonymous = mapTags Tag.unnumbered ts :=
    fun ts => (mapTags_eq_map _ ts).symm
  simp [anonymous, mapTag, Tag.unnumbered_eq_iff, hparts]

theorem anonymous_bracket_eq_iff {tag tag' : Tag} {frame frame' : Frame} {body body' : Token} :
    (bracket tag frame body).anonymous = (bracket tag' frame' body').anonymous ↔
      tag.toMarks = tag'.toMarks ∧ frame = frame' ∧ body.anonymous = body'.anonymous := by
  simp [anonymous, mapTag, Tag.unnumbered_eq_iff]

theorem describe?_group_eq_some {tag : Tag} {commas : Bool} {forced : Option Bool}
    {parts : List Token} {text : String}
    (h : (group tag commas forced parts).describe? = some text) :
    ∃ texts, describes? parts = some texts ∧
      text = callText .group (("[" ++ String.intercalate ", " texts ++ "]") ::
        (flagged "add_commas" commas ++ describedForced forced ++ tag.described)) := by
  obtain ⟨texts, htexts, heq⟩ := Option.bind_eq_some_iff.1 h
  exact ⟨texts, htexts, (Option.some.inj heq).symm⟩

theorem describe?_bracket_eq_some {tag : Tag} {frame : Frame} {body : Token} {text : String}
    (h : (bracket tag frame body).describe? = some text) :
    ∃ inner, body.describe? = some inner ∧
      text = callText .bracket (Text.quote frame.opening :: Text.quote frame.closing :: inner ::
        (flagged "new_line_before" frame.ownLine ++
          flagged "omit_brackets_for_single" frame.bareSingle ++ tag.described)) := by
  obtain ⟨inner, hinner, heq⟩ := Option.bind_eq_some_iff.1 h
  exact ⟨inner, hinner, (Option.some.inj heq).symm⟩

theorem describes?_cons_eq_some {t : Token} {ts : List Token} {texts : List String}
    (h : describes? (t :: ts) = some texts) :
    ∃ text rest, t.describe? = some text ∧ describes? ts = some rest ∧ texts = text :: rest := by
  obtain ⟨text, htext, h⟩ := Option.bind_eq_some_iff.1 h
  obtain ⟨rest, hrest, heq⟩ := Option.bind_eq_some_iff.1 h
  exact ⟨text, rest, htext, hrest, (Option.some.inj heq).symm⟩

/-- Every description is a call of the kind of its token. -/
theorem exists_callText_of_describe? {t : Token} {text : String} (h : t.describe? = some text) :
    ∃ args, text = callText t.kind args := by
  cases t with
  | leaf tag role word => cases role <;> exact ⟨_, (Option.some.inj h).symm⟩
  | group tag commas forced parts =>
    obtain ⟨texts, -, rfl⟩ := describe?_group_eq_some h
    exact ⟨_, rfl⟩
  | bracket tag frame body =>
    obtain ⟨inner, -, rfl⟩ := describe?_bracket_eq_some h
    exact ⟨_, rfl⟩
  | blank tag => simp [describe?] at h
  | foreign tag length multiline => simp [describe?] at h

theorem opens_of_describes? {ts : List Token} {texts : List String}
    (h : describes? ts = some texts) : ∀ text ∈ texts, Opens ']' text := by
  induction ts generalizing texts with
  | nil => simp_all [describes?]
  | cons t ts ih =>
    obtain ⟨text, rest, htext, hrest, rfl⟩ := describes?_cons_eq_some h
    obtain ⟨args, rfl⟩ := exists_callText_of_describe? htext
    exact List.forall_mem_cons.2 ⟨opens_callText _ _, ih hrest⟩

/-- Tokens whose descriptions start alike are of the same kind. -/
theorem kind_eq_of_describe? {a b : Token} {text text' : String} {rest rest' : List Char}
    (ha : a.describe? = some text) (hb : b.describe? = some text')
    (h : text.toList ++ rest = text'.toList ++ rest') : b.kind = a.kind := by
  obtain ⟨args, rfl⟩ := exists_callText_of_describe? ha
  obtain ⟨args', rfl⟩ := exists_callText_of_describe? hb
  exact (callText_append_inj h).1.symm

theorem eq_leaf_of_kind {t : Token} (role : LeafRole) (h : t.kind = role.kind) :
    ∃ tag text, t = leaf tag role text := by
  cases role <;> rcases t with ⟨tag, _ | _, text⟩ | _ | _ | _ | _ <;>
    first | exact ⟨_, _, rfl⟩ | exact Kind.noConfusion h

theorem eq_group_of_kind {t : Token} (h : t.kind = .group) :
    ∃ tag commas forced parts, t = group tag commas forced parts := by
  rcases t with ⟨tag, _ | _, text⟩ | ⟨tag, commas, forced, parts⟩ | _ | _ | _ <;>
    first | exact ⟨_, _, _, _, rfl⟩ | exact Kind.noConfusion h

theorem eq_bracket_of_kind {t : Token} (h : t.kind = .bracket) :
    ∃ tag frame body, t = bracket tag frame body := by
  rcases t with ⟨tag, _ | _, text⟩ | _ | ⟨tag, frame, body⟩ | _ | _ <;>
    first | exact ⟨_, _, _, rfl⟩ | exact Kind.noConfusion h

mutual

/-- A description with anything behind it comes from one structure and one rest only. -/
theorem describe?_append_inj : ∀ a b : Token, a.Separated → b.Separated →
    ∀ {text text' : String} {rest rest' : List Char},
      a.describe? = some text → b.describe? = some text' →
      text.toList ++ rest = text'.toList ++ rest' → a.anonymous = b.anonymous ∧ rest = rest'
  | leaf tag .word word, b, _, _, _, _, _, _, ha, hb, h => by
    obtain ⟨tag', word', rfl⟩ := eq_leaf_of_kind .word (kind_eq_of_describe? ha hb h)
    obtain rfl := Option.some.inj ha
    obtain rfl := Option.some.inj hb
    have hrow := (callText_append_inj h).2
    rw [row_cons, row_cons] at hrow
    obtain ⟨rfl, htrailing⟩ := Text.quote_append_inj hrow
    obtain ⟨hmarks, hrest⟩ :=
      trailing_inj tag.plain_described tag'.plain_described htrailing
    exact ⟨anonymous_leaf_eq_iff.2 ⟨Marks.described_injective hmarks, rfl, rfl⟩, hrest⟩
  | leaf tag .separator word, b, hsep, hsep', _, _, _, _, ha, hb, h => by
    obtain ⟨tag', word', rfl⟩ := eq_leaf_of_kind .separator (kind_eq_of_describe? ha hb h)
    obtain rfl := Option.some.inj ha
    obtain rfl := Option.some.inj hb
    -- The call of a separator has no text in front, so it may have no arguments at all.
    have htrailing := trailing_eq_of_row_eq (fun arg harg => (tag.plain_described arg harg).opens)
      (fun arg harg => (tag'.plain_described arg harg).opens) (callText_append_inj h).2
    obtain ⟨hmarks, hrest⟩ :=
      trailing_inj tag.plain_described tag'.plain_described htrailing
    have hword : word = word' := hsep.text_eq.trans hsep'.text_eq.symm
    exact ⟨anonymous_leaf_eq_iff.2 ⟨Marks.described_injective hmarks, rfl, hword⟩, hrest⟩
  | group tag commas forced parts, b, hsep, hsep', _, _, _, _, ha, hb, h => by
    obtain ⟨tag', commas', forced', parts', rfl⟩ :=
      eq_group_of_kind (kind_eq_of_describe? ha hb h)
    obtain ⟨texts, htexts, rfl⟩ := describe?_group_eq_some ha
    obtain ⟨texts', htexts', rfl⟩ := describe?_group_eq_some hb
    have hrow := (callText_append_inj h).2
    rw [row_cons, row_cons, bracketed_append, bracketed_append] at hrow
    -- The list of parts ends at its own bracket, and what is left are the properties.
    have hparts := trailing_eq_of_row_eq (opens_of_describes? htexts)
      (opens_of_describes? htexts') (List.cons.inj hrow).2
    obtain ⟨hparts, htrailing⟩ := describes?_trailing_inj parts parts'
      (fun _ hp => hsep.part hp) (fun _ hp => hsep'.part hp) htexts htexts' hparts
    obtain ⟨hprops, hrest⟩ := trailing_inj (plain_group_properties _ _ _)
      (plain_group_properties _ _ _) htrailing
    obtain ⟨hcommas, hforced, hmarks⟩ := group_properties_inj hprops
    exact ⟨anonymous_group_eq_iff.2 ⟨hmarks, hcommas, hforced, hparts⟩, hrest⟩
  | bracket tag frame body, b, hsep, hsep', _, _, _, _, ha, hb, h => by
    obtain ⟨tag', frame', body', rfl⟩ := eq_bracket_of_kind (kind_eq_of_describe? ha hb h)
    obtain ⟨inner, hinner, rfl⟩ := describe?_bracket_eq_some ha
    obtain ⟨inner', hinner', rfl⟩ := describe?_bracket_eq_some hb
    have hrow := (callText_append_inj h).2
    simp only [row_cons, trailing_cons] at hrow
    obtain ⟨hopening, hrow⟩ := Text.quote_append_inj hrow
    simp only [List.cons.injEq, true_and] at hrow
    obtain ⟨hclosing, hrow⟩ := Text.quote_append_inj hrow
    simp only [List.cons.injEq, true_and] at hrow
    obtain ⟨hbody, htrailing⟩ :=
      describe?_append_inj body body' hsep.body hsep'.body hinner hinner' hrow
    obtain ⟨hprops, hrest⟩ := trailing_inj (plain_bracket_properties _ _ _)
      (plain_bracket_properties _ _ _) htrailing
    obtain ⟨hownLine, hbareSingle, hmarks⟩ := bracket_properties_inj hprops
    have hframe : frame = frame' := by
      cases frame
      cases frame'
      congr
    exact ⟨anonymous_bracket_eq_iff.2 ⟨hmarks, hframe, hbody⟩, hrest⟩
  | blank _, _, _, _, _, _, _, _, ha, _, _ => by simp [describe?] at ha
  | foreign .., _, _, _, _, _, _, _, ha, _, _ => by simp [describe?] at ha

/-- A list of descriptions, up to the bracket that closes it, comes from one list of structures. -/
theorem describes?_trailing_inj : ∀ ts us : List Token, (∀ t ∈ ts, t.Separated) →
    (∀ u ∈ us, u.Separated) → ∀ {texts texts' : List String} {rest rest' : List Char},
      describes? ts = some texts → describes? us = some texts' →
      trailing ']' texts rest = trailing ']' texts' rest' →
      ts.map anonymous = us.map anonymous ∧ rest = rest'
  | [], [], _, _, _, _, _, _, ht, hu, h => by
    obtain rfl := Option.some.inj ht
    obtain rfl := Option.some.inj hu
    exact ⟨rfl, (List.cons.inj h).2⟩
  | [], u :: us, _, _, _, _, _, _, ht, hu, h => by
    obtain rfl := Option.some.inj ht
    obtain ⟨text', rest, -, -, rfl⟩ := describes?_cons_eq_some hu
    simp at h
  | t :: ts, [], _, _, _, _, _, _, ht, hu, h => by
    obtain rfl := Option.some.inj hu
    obtain ⟨text, rest, -, -, rfl⟩ := describes?_cons_eq_some ht
    simp at h
  | t :: ts, u :: us, hsep, hsep', _, _, _, _, ht, hu, h => by
    obtain ⟨text, texts, htext, htexts, rfl⟩ := describes?_cons_eq_some ht
    obtain ⟨text', texts', htext', htexts', rfl⟩ := describes?_cons_eq_some hu
    simp only [trailing_cons, List.cons.injEq, true_and] at h
    obtain ⟨hhead, h⟩ := describe?_append_inj t u (hsep t (by simp)) (hsep' u (by simp))
      htext htext' h
    obtain ⟨htail, hrest⟩ := describes?_trailing_inj ts us (fun v hv => hsep v (by simp [hv]))
      (fun v hv => hsep' v (by simp [hv])) htexts htexts' h
    exact ⟨by rw [List.map_cons, List.map_cons, hhead, htail], hrest⟩

end

mutual

/-- A tree that can be written can be described. -/
theorem exists_describe? : ∀ t : Token, t.Writable → ∃ text, t.describe? = some text
  | leaf _ .word _, _ => ⟨_, rfl⟩
  | leaf _ .separator _, _ => ⟨_, rfl⟩
  | group _ _ _ parts, h => by
    obtain ⟨texts, htexts⟩ := exists_describes? parts h.part
    exact ⟨_, by rw [describe?, htexts]; rfl⟩
  | bracket _ _ body, h => by
    obtain ⟨inner, hinner⟩ := exists_describe? body h.body
    exact ⟨_, by rw [describe?, hinner]; rfl⟩
  | blank _, h => absurd h (not_writable_blank _)
  | foreign .., h => absurd h (not_writable_foreign _ _ _)

theorem exists_describes? :
    ∀ ts : List Token, (∀ t ∈ ts, t.Writable) → ∃ texts, describes? ts = some texts
  | [], _ => ⟨[], rfl⟩
  | t :: ts, h => by
    obtain ⟨text, htext⟩ := exists_describe? t (h t (by simp))
    obtain ⟨texts, htexts⟩ := exists_describes? ts fun u hu => h u (by simp [hu])
    exact ⟨text :: texts, by rw [describes?, htext, htexts]; rfl⟩

end

theorem describes?_map {f : Token → Token} {ts : List Token}
    (h : ∀ t ∈ ts, (f t).describe? = t.describe?) : describes? (ts.map f) = describes? ts := by
  induction ts with
  | nil => rfl
  | cons t ts ih =>
    have hrest := ih fun u hu => h u (List.mem_cons_of_mem t hu)
    rw [List.map_cons, describes?, describes?, h t List.mem_cons_self, hrest]

/-- Nothing of a description comes from the numbers of the tokens. -/
theorem describe?_mapTag {f : Tag → Tag} (hf : ∀ tag, (f tag).toMarks = tag.toMarks)
    (t : Token) : (t.mapTag f).describe? = t.describe? := by
  induction t using children_induction with
  | step t ih =>
    cases t with
    | leaf tag role text => cases role <;> simp [mapTag, describe?, hf]
    | group tag commas forced parts =>
      have hparts : describes? (parts.map (mapTag f)) = describes? parts := describes?_map ih
      simp [mapTag, mapTags_eq_map, describe?, hf, hparts]
    | bracket tag frame body =>
      simp [mapTag, describe?, hf, ih body (List.mem_singleton_self body)]
    | blank tag => rfl
    | foreign tag length multiline => rfl

/-- A description does not tell the numbers of tokens. -/
theorem describe?_anonymous (t : Token) : t.anonymous.describe? = t.describe? :=
  describe?_mapTag (f := Tag.unnumbered) (fun _ => rfl) t

/-- Every token that can be written and whose separators have their own text is described, and two
of them have the same description exactly if they have the same structure: the same kinds, texts,
brackets, parts in order and properties. -/
theorem describe?_eq_iff_anonymous_eq {a b : Token} (ha : a.Writable) (hb : b.Writable)
    (hsep : a.Separated) (hsep' : b.Separated) :
    (∃ text, a.describe? = some text) ∧
      (a.describe? = b.describe? ↔ a.anonymous = b.anonymous) := by
  obtain ⟨text, htext⟩ := exists_describe? a ha
  obtain ⟨text', htext'⟩ := exists_describe? b hb
  refine ⟨⟨text, htext⟩, fun h => ?_, fun h => ?_⟩
  · have heq : text = text' := Option.some.inj (htext.symm.trans (h.trans htext'))
    have happend : text.toList ++ [] = text'.toList ++ [] := by rw [heq]
    exact (describe?_append_inj a b hsep hsep' htext htext' happend).1
  · rw [← describe?_anonymous a, h, describe?_anonymous b]

/-- A word that holds the end of its own description and the start of the next one is not taken for
two words. -/
theorem describe?_eq_iff_anonymous_eq_imitation :
    let imitation := group ⟨{}, 0⟩ false none [leaf ⟨{}, 1⟩ .word "a'), LeafToken('b\"\\"]
    let pair := group ⟨{}, 0⟩ false none [leaf ⟨{}, 1⟩ .word "a", leaf ⟨{}, 2⟩ .word "b\"\\"]
    imitation.Writable ∧ pair.Writable ∧ imitation.Separated ∧ pair.Separated ∧
      imitation.describe? ≠ pair.describe? := by
  intro imitation pair
  have hwritable : imitation.Writable := by decide
  have hwritable' : pair.Writable := by decide
  have hsep : imitation.Separated := by simp [imitation, Separated, Every, preorder, preorders]
  have hsep' : pair.Separated := by simp [pair, Separated, Every, preorder, preorders]
  refine ⟨hwritable, hwritable', hsep, hsep', fun h => ?_⟩
  have heq := (describe?_eq_iff_anonymous_eq hwritable hwritable' hsep hsep').2.1 h
  simpa using (anonymous_group_eq_iff.1 heq).2.2.2

end Token

end TokenLayout
