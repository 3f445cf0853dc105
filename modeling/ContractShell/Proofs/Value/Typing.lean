import ContractShell.Proofs.Bytes.Digits
import ContractShell.Proofs.Command.Rendering
import ContractShell.Proofs.Correspondence
import ContractShell.Proofs.Number.Numeral
import ContractShell.Schema.Args
import ContractShell.Value.Binding
import Mathlib.Data.List.Forall2

/-!
Values of a schema, and the texts that they are typed as.

## Main statements

* `LeafKind.bind_text`, `LeafKind.denotes_text`: the text of a plain value denotes it, as text and as a token of a line.
* `FieldsSpell.bind`, `FieldsSpell.unbind`: a message is read back from the texts of its plain fields.
* `Schema.Holds.exists_texts`: the texts of a value stand for the arguments of its schema.
-/

namespace ContractShell

open Command (Values)

/-! ## 1. Plain values -/

/-- A plain value is of a kind. Integers are of the range of the widest type of their kind, and bytes are not empty, since
no token denotes no bytes. -/
inductive LeafKind.Holds : LeafKind → Value → Prop where
  | bool (b : Bool) : Holds .bool (.bool b)
  | int {n : Int} (hlow : -0x8000000000000000 ≤ n) (hhigh : n < 0x8000000000000000) : Holds .int (.int n)
  | uint {n : Int} (hlow : 0 ≤ n) (hhigh : n < 0x10000000000000000) : Holds .uint (.int n)
  | string (s : String) : Holds .string (.text s)
  | bytes {b : Bytes} (hne : b ≠ []) : Holds .bytes (.bytes b)
  | bytesHex {b : Bytes} (hne : b ≠ []) : Holds .bytesHex (.bytes b)
  | bytesAddress {b : Bytes} (hne : b ≠ []) : Holds .bytesAddress (.bytes b)

/-- A plain value is of a kind and is read back from its text: its integers are not too long to write, and what is written
in hexadecimal is not empty. -/
inductive LeafKind.Fits : LeafKind → Value → Prop where
  | bool (b : Bool) : Fits .bool (.bool b)
  | int {n : Int} (hshort : Integer.isWritable n = true) : Fits .int (.int n)
  | uint {n : Int} (hlow : 0 ≤ n) (hshort : Integer.isWritable n = true) : Fits .uint (.int n)
  | string (s : String) : Fits .string (.text s)
  | bytes {b : Bytes} (hne : b ≠ []) : Fits .bytes (.bytes b)
  | bytesHex {b : Bytes} (hne : b ≠ []) : Fits .bytesHex (.bytes b)
  | bytesAddress (b : Bytes) : Fits .bytesAddress (.bytes b)

/-- The token that a text is written as in a line: a string in quotes, anything else as it is. -/
def Command.Kind.token (quote : Char) (kind : Command.Kind) (text : String) : List Char :=
  match kind with
  | .string => Command.Quoted.write quote text.toList
  | _ => text.toList

theorem isWritable_of_lt {n : Int} (h : n.natAbs < 2 ^ 64) : Integer.isWritable n = true := by
  have hpow : ∀ digits, 20 ≤ digits → 2 ^ 64 ≤ Nat.pow 10 digits := by
    intro digits hdigits
    have htwenty : 2 ^ 64 ≤ 10 ^ 20 := by decide
    exact Nat.le_trans htwenty (Nat.pow_le_pow_right (Nat.succ_pos 9) hdigits)
  rw [Integer.isWritable, decide_eq_true_eq]
  exact Nat.lt_of_lt_of_le h (hpow Integer.maxDigits (by decide))

theorem numeral_of_isWritable {n : Int} (h : Integer.isWritable n = true) : Value.numeral n = .ok (toString n) := by
  unfold Value.numeral
  rw [Integer.text?_of_isWritable h]

theorem LeafKind.text_int {n : Int} (h : Integer.isWritable n = true) : LeafKind.text .int (.int n) = .ok (toString n) := by
  simp only [LeafKind.text, Value.integer_int, Except.bind, numeral_of_isWritable h]

theorem LeafKind.text_uint {n : Int} (h : Integer.isWritable n = true) :
    LeafKind.text .uint (.int n) = .ok (toString n) := by
  simp only [LeafKind.text, Value.integer_int, Except.bind, numeral_of_isWritable h]

/-- The numeral of an integer is a token for integers; without a minus it is one for unsigned integers too. -/
theorem isInteger_toString {signed : Bool} {n : Int} (h : signed = true ∨ 0 ≤ n) :
    Command.IsInteger signed (toString n).toList := by
  refine ⟨Nat.toDigits 10 n.natAbs, ⟨Nat.toDigits_ne_nil, fun _ => Integer.isDigit_of_mem_toDigits⟩, ?_⟩
  rw [Integer.toList_toString]
  by_cases hn : 0 ≤ n
  · rw [if_pos hn]
    exact .inl rfl
  · rw [if_neg hn]
    exact .inr (.inr ⟨h.resolve_right hn, rfl⟩)

theorem bindInteger_toString {signed : Bool} {n : Int} (field : String) (hsigned : signed = true ∨ 0 ≤ n)
    (h : Integer.isWritable n = true) : bindInteger signed field (toString n) = .ok (.int n) := by
  have hwhole := Command.integer?_append (isInteger_toString hsigned) (r := []) rfl
  rw [List.append_nil] at hwhole
  unfold bindInteger
  rw [hwhole]
  simp only [Integer.read_toString h]

theorem isHex_hexText {b : Bytes} (hne : b ≠ []) : Command.IsHex (hexText b).toList := by
  refine ⟨Hex.encode b, ⟨?_, fun _ => Hex.isHexDigit_of_mem_encode⟩, .inr ?_⟩
  · intro hnil
    have hlen := Hex.length_encode b
    rw [hnil, List.length_nil] at hlen
    exact hne (List.length_eq_zero_iff.mp (by omega))
  · rw [hexText, String.toList_ofList]
    rfl

theorem bytesOfHexText_hexText {b : Bytes} (hne : b ≠ []) : bytesOfHexText (hexText b) = .ok b := by
  have hwhole := Command.hex?_append (isHex_hexText hne) (r := []) rfl
  have htext : (hexText b).toList = '0' :: 'x' :: Hex.encode b := by
    rw [hexText, String.toList_ofList]
    rfl
  rw [List.append_nil, htext] at hwhole
  unfold bytesOfHexText
  rw [htext]
  simp only [hwhole, dropHexMark, Hex.decode?_encode]

section

variable {kind : LeafKind} {x : Value}

theorem LeafKind.Holds.fits (h : kind.Holds x) : kind.Fits x := by
  cases h with
  | bool b => exact .bool b
  | int hlow hhigh => exact .int (isWritable_of_lt (by omega))
  | uint hlow hhigh => exact .uint hlow (isWritable_of_lt (by omega))
  | string s => exact .string s
  | bytes hne => exact .bytes hne
  | bytesHex hne => exact .bytesHex hne
  | bytesAddress hne => exact .bytesAddress _

/-- Every value of a kind has a text. -/
theorem LeafKind.exists_text (h : kind.Fits x) : ∃ text, kind.text x = .ok text := by
  cases h with
  | bool b => exact ⟨_, rfl⟩
  | int hshort => exact ⟨_, text_int hshort⟩
  | uint hlow hshort => exact ⟨_, text_uint hshort⟩
  | string s => exact ⟨_, rfl⟩
  | bytes hne | bytesHex hne | bytesAddress b => exact ⟨_, rfl⟩

/-- A value is read back from its text. -/
theorem LeafKind.bind_text (h : kind.Fits x) {text : String} (ht : kind.text x = .ok text) (field : String) :
    kind.bind field text = .ok x := by
  cases h with
  | bool b =>
    cases ht
    cases b <;> rfl
  | int hshort =>
    rw [text_int hshort] at ht
    cases ht
    exact bindInteger_toString field (.inl rfl) hshort
  | uint hlow hshort =>
    rw [text_uint hshort] at ht
    cases ht
    exact bindInteger_toString field (.inr hlow) hshort
  | string s =>
    cases ht
    rfl
  | bytes hne | bytesHex hne =>
    cases ht
    simp only [LeafKind.bind, bytesOfHexText_hexText hne]
  | bytesAddress b =>
    cases ht
    simp only [LeafKind.bind, Base58.toString, String.toList_ofList, Base58.decode_encode]

/-- The text of a value is a token for it. -/
theorem LeafKind.denotes_text (h : kind.Holds x) {text : String} (ht : kind.text x = .ok text) {quote : Char}
    (hq : Command.Quoted.IsQuote quote) : kind.argKind.Denotes (kind.argKind.token quote text) text.toList := by
  -- The text of each kind is the token that people type for it, and strings are put in quotes.
  cases h with
  | bool b =>
    cases ht
    cases b
    · exact ⟨false, .inl (show (Command.truthWord false).map Command.foldCase = _ by decide), rfl⟩
    · exact ⟨true, .inl (show (Command.truthWord true).map Command.foldCase = _ by decide), rfl⟩
  | @int n hlow hhigh =>
    rw [text_int (isWritable_of_lt (by omega))] at ht
    cases ht
    exact ⟨rfl, isInteger_toString (.inl rfl)⟩
  | @uint n hlow hhigh =>
    rw [text_uint (isWritable_of_lt (by omega))] at ht
    cases ht
    exact ⟨rfl, isInteger_toString (.inr hlow)⟩
  | string s =>
    cases ht
    exact ⟨quote, hq, rfl⟩
  | bytes hne | bytesHex hne =>
    cases ht
    exact ⟨rfl, isHex_hexText hne⟩
  | @bytesAddress b hne =>
    cases ht
    refine ⟨rfl, ?_⟩
    rw [Base58.toString, String.toList_ofList]
    exact ⟨Base58.encode_ne_nil hne, fun _ => Base58.isDigit_of_mem_encode⟩

/-- Every value of a kind can be shown. -/
theorem LeafKind.exists_shown (h : kind.Holds x) : ∃ text, kind.shown x = .ok text := by
  cases h with
  | string s => exact ⟨_, rfl⟩
  | bool b => exact exists_text (.bool b)
  | @int n hlow hhigh =>
    have ht := text_int (isWritable_of_lt (n := n) (by omega))
    exact ⟨toString n, by simp only [shown, ht]⟩
  | @uint n hlow hhigh =>
    have ht := text_uint (isWritable_of_lt (n := n) (by omega))
    exact ⟨toString n, by simp only [shown, ht]⟩
  | bytes hne => exact exists_text (.bytes hne)
  | bytesHex hne => exact exists_text (.bytesHex hne)
  | bytesAddress hne => exact exists_text (.bytesAddress _)

end

/-! ## 2. Messages -/

/-- The members of a message are, in order, what a list of fields describes. -/
inductive FieldsHold : List Field → List (String × Value) → Prop where
  | nil : FieldsHold [] []
  | leaf {name : String} {kind : LeafKind} {x : Value} {fields : List Field} {members : List (String × Value)}
      (hx : kind.Holds x) (h : FieldsHold fields members) :
      FieldsHold (.leaf name kind :: fields) ((name, x) :: members)
  | message {name type : String} {inner fields : List Field} {xs members : List (String × Value)}
      (hx : FieldsHold inner xs) (h : FieldsHold fields members) :
      FieldsHold (.message name (.mk type inner) :: fields) ((name, .message xs) :: members)

/-- A value is of the type that a schema describes. -/
def Schema.Holds (schema : Schema) (v : Value) : Prop :=
  ∃ members, FieldsHold schema.fields members ∧ v = .message members

mutual

/-- No message type in a schema has two fields of one name. -/
def Schema.HasDistinctNames : Schema → Prop
  | .mk _ fields => (fields.map (·.name)).Nodup ∧ haveDistinctNames fields

/-- No message type in a list of fields has two fields of one name. -/
def haveDistinctNames : List Field → Prop
  | [] => True
  | .message _ schema :: r => schema.HasDistinctNames ∧ haveDistinctNames r
  | .leaf _ _ :: r => haveDistinctNames r
  | .unknown _ :: r => haveDistinctNames r

end

theorem Schema.hasDistinctNames_iff {schema : Schema} :
    schema.HasDistinctNames ↔ (schema.fields.map (·.name)).Nodup ∧ haveDistinctNames schema.fields := by
  cases schema
  exact Iff.rfl

/-- The texts of the plain fields of a message, in order. -/
inductive FieldsSpell : List Field → List (String × Value) → Values → Prop where
  | nil : FieldsSpell [] [] []
  | leaf {name text : String} {kind : LeafKind} {x : Value} {fields : List Field} {members : List (String × Value)}
      {texts : Values} (hx : kind.Holds x) (ht : kind.text x = .ok text) (h : FieldsSpell fields members texts) :
      FieldsSpell (.leaf name kind :: fields) ((name, x) :: members) ((name, text) :: texts)
  | message {name type : String} {inner fields : List Field} {xs members : List (String × Value)}
      {innerTexts texts : Values} (hx : FieldsSpell inner xs innerTexts) (h : FieldsSpell fields members texts) :
      FieldsSpell (.message name (.mk type inner) :: fields) ((name, .message xs) :: members) (innerTexts ++ texts)

section

variable {fields : List Field} {members : List (String × Value)} {texts : Values}

/-- Every message of a type can be spelled. -/
theorem FieldsHold.exists_texts (h : FieldsHold fields members) : ∃ texts, FieldsSpell fields members texts := by
  induction h with
  | nil => exact ⟨[], .nil⟩
  | leaf hx _ ih =>
    obtain ⟨text, ht⟩ := LeafKind.exists_text hx.fits
    obtain ⟨texts, h⟩ := ih
    exact ⟨_, .leaf hx ht h⟩
  | message _ _ ihx ih =>
    obtain ⟨innerTexts, hx⟩ := ihx
    obtain ⟨texts, h⟩ := ih
    exact ⟨_, .message hx h⟩

theorem FieldsHold.names (h : FieldsHold fields members) : members.map (·.1) = fields.map (·.name) := by
  induction h with
  | nil => rfl
  | leaf _ _ ih | message _ _ _ ih =>
    rw [List.map_cons, List.map_cons, ih]
    rfl

theorem FieldsSpell.names (h : FieldsSpell fields members texts) : members.map (·.1) = fields.map (·.name) := by
  induction h with
  | nil => rfl
  | leaf _ _ _ ih | message _ _ _ ih =>
    rw [List.map_cons, List.map_cons, ih]
    rfl

/-- An argument is written for a text under its name, in quotes of either sort if it is a string. -/
def Command.Arg.Writes (a : Command.Arg) (p : String × String) : Prop :=
  a.name = p.1 ∧ a.optional = false ∧
    ∀ quote, Command.Quoted.IsQuote quote → a.kind.Denotes (a.kind.token quote p.2) p.2.toList

/-- The plain fields are the arguments, in the same order, and their texts can be written as tokens. -/
theorem FieldsSpell.args (h : FieldsSpell fields members texts) :
    ∃ args, argsOf fields = .ok args ∧ List.Forall₂ Command.Arg.Writes args texts := by
  induction h with
  | nil => exact ⟨[], rfl, .nil⟩
  | @leaf name text kind x fields members texts hx ht _ ih =>
    obtain ⟨args, hargs, hwrites⟩ := ih
    refine ⟨⟨name, kind.argKind, false⟩ :: args, ?_, .cons ⟨rfl, rfl, fun _ hq => ?_⟩ hwrites⟩
    · rw [argsOf, hargs]
      rfl
    · exact LeafKind.denotes_text hx ht hq
  | @message name type inner fields xs members innerTexts texts _ _ ihx ih =>
    obtain ⟨innerArgs, hinner, hinnerWrites⟩ := ihx
    obtain ⟨args, hargs, hwrites⟩ := ih
    refine ⟨innerArgs ++ args, ?_, List.rel_append hinnerWrites hwrites⟩
    rw [argsOf, Schema.args, hinner, hargs]
    rfl

/-- A member of the first name to come is new, and after it the other names are still to come. -/
theorem new_of_cons {name : String} {names : List String} {done : List (String × Value)} (x : Value)
    (hname : name ∉ names) (hdone : ∀ p ∈ done, p.1 ∉ name :: names) :
    (∀ p ∈ done, p.1 ≠ name) ∧ ∀ p ∈ done ++ [(name, x)], p.1 ∉ names := by
  constructor
  · intro p hp heq
    apply hdone p hp
    rw [heq]
    exact List.mem_cons_self
  · intro p hp
    rcases List.mem_append.mp hp with hp | hp
    · exact fun hmem => hdone p hp (List.mem_cons_of_mem _ hmem)
    · rw [List.mem_singleton.mp hp]
      exact hname

/-- A message is read back from the texts of its plain fields, wherever they stand among others. -/
theorem FieldsSpell.bind (h : FieldsSpell fields members texts) {values : Values} (hnames : (fields.map (·.name)).Nodup)
    (hdistinct : haveDistinctNames fields) (hvalues : ∀ p ∈ texts, values.find? p.1 = some p.2)
    (done : List (String × Value)) (hdone : ∀ p ∈ done, p.1 ∉ fields.map (·.name)) :
    bindFields values fields done = .ok (done ++ members) := by
  -- The members so far have other names than the fields to come, so each member is set at the end.
  induction h generalizing done with
  | nil => rw [bindFields, List.append_nil]
  | @leaf name text kind x fields members texts hx ht _ ih =>
    rw [List.map_cons, List.nodup_cons] at hnames
    obtain ⟨hnew, hnext⟩ := @new_of_cons name _ done x hnames.1 hdone
    rw [bindFields, hvalues (name, text) (by simp)]
    simp only [LeafKind.bind_text hx.fits ht name, Value.setMember_fresh name x done hnew]
    rw [ih hnames.2 hdistinct (fun p hp => hvalues p (List.mem_cons_of_mem _ hp)) _ hnext, List.append_assoc]
    rfl
  | @message name type inner fields xs members innerTexts texts _ _ ihx ih =>
    rw [List.map_cons, List.nodup_cons] at hnames
    obtain ⟨hnew, hnext⟩ := @new_of_cons name _ done (.message xs) hnames.1 hdone
    have hinner : Schema.bind values (.mk type inner) = .ok (.message xs) := by
      rw [Schema.bind, ihx hdistinct.1.1 hdistinct.1.2 (fun p hp => hvalues p (List.mem_append_left _ hp)) [] (by simp)]
      rfl
    rw [bindFields]
    simp only [hinner, Value.setMember_fresh name _ done hnew]
    rw [ih hnames.2 hdistinct.2 (fun p hp => hvalues p (List.mem_append_right _ hp)) _ hnext, List.append_assoc]
    rfl

/-- A member is found by its name when no other one has the name. -/
theorem member?_of_mem (hnodup : (members.map (·.1)).Nodup) {p : String × Value} (hp : p ∈ members) :
    Value.member? p.1 members = some p.2 := by
  rw [Value.member?, find?_eq_some_of_nodup hnodup hp, Option.map_some]

theorem memberIn_of_mem (hnodup : (members.map (·.1)).Nodup) {p : String × Value} (hp : p ∈ members) :
    (Value.message members).memberIn p.1 = .ok (some p.2) := by
  rw [Value.memberIn_message, member?_of_mem hnodup hp]

/-- New texts are put into a map at its end. -/
theorem setAll_of_new {done new : Values} (hnodup : ((done ++ new).map (·.1)).Nodup) : setAll done new = done ++ new := by
  induction new generalizing done with
  | nil => rw [List.append_nil, setAll, List.foldl_nil]
  | cons p new ih =>
    have hnew : p.1 ∉ done.map (·.1) := by
      rw [List.map_append, List.map_cons, List.nodup_append] at hnodup
      exact fun hmem => hnodup.2.2 p.1 hmem p.1 (by simp) rfl
    have hset : Command.Values.set p.1 p.2 done = done ++ [p] := Command.set_of_not_mem hnew p.2
    have hstep := @ih (done ++ [p]) (by rw [List.append_assoc]; exact hnodup)
    rw [List.append_assoc] at hstep
    rw [setAll, List.foldl_cons, hset]
    exact hstep

/-- The texts of a message are those of its plain fields, in order. -/
theorem FieldsSpell.unbind (h : FieldsSpell fields members texts) (hdistinct : haveDistinctNames fields) {v : Value}
    (hv : ∀ p ∈ members, v.memberIn p.1 = .ok (some p.2)) (done : Values)
    (hnodup : ((done ++ texts).map (·.1)).Nodup) : unbindFields v fields done = .ok (done ++ texts) := by
  -- The texts so far and the texts to come have different names, so each text is set at the end.
  induction h generalizing v done with
  | nil => rw [unbindFields, List.append_nil]
  | @leaf name text kind x fields members texts hx ht _ ih =>
    have hnew : name ∉ done.map (·.1) := by
      rw [List.map_append, List.map_cons, List.nodup_append] at hnodup
      exact fun hmem => hnodup.2.2 name hmem name (by simp) rfl
    have hset : Command.Values.set name text done = done ++ [(name, text)] := Command.set_of_not_mem hnew text
    have hstep := ih hdistinct (fun p hp => hv p (List.mem_cons_of_mem _ hp)) (done ++ [(name, text)])
      (by rw [List.append_assoc]; exact hnodup)
    rw [List.append_assoc] at hstep
    rw [unbindFields]
    simp only [hv (name, x) (by simp), ht, hset]
    exact hstep
  | @message name type inner fields xs members innerTexts texts hx _ ihx ih =>
    have hsplit : ((done ++ innerTexts).map (·.1)).Nodup := by
      rw [← List.append_assoc, List.map_append] at hnodup
      exact (List.nodup_append.mp hnodup).1
    have hinnerNodup : (innerTexts.map (·.1)).Nodup := by
      rw [List.map_append] at hsplit
      exact (List.nodup_append.mp hsplit).2.1
    have hmembers : (xs.map (·.1)).Nodup := by
      rw [hx.names]
      exact hdistinct.1.1
    have hinner : Schema.unbind (.mk type inner) (.message xs) = .ok innerTexts := by
      rw [Schema.unbind]
      exact ihx hdistinct.1.2 (fun p hp => memberIn_of_mem hmembers hp) [] (by simpa using hinnerNodup)
    have hstep := ih hdistinct.2 (fun p hp => hv p (List.mem_cons_of_mem _ hp)) (done ++ innerTexts)
      (by rw [List.append_assoc]; exact hnodup)
    rw [List.append_assoc] at hstep
    rw [unbindFields]
    simp only [hv (name, .message xs) (by simp), hinner, setAll_of_new hsplit]
    exact hstep

/-- Every message of a type can be shown. -/
theorem FieldsHold.exists_display (h : FieldsHold fields members) (hdistinct : haveDistinctNames fields) (indent : String)
    {v : Value} (hv : ∀ p ∈ members, v.memberIn p.1 = .ok (some p.2)) :
    ∃ lines, displayFields indent v fields = .ok lines := by
  induction h generalizing v with
  | nil => exact ⟨[], by rw [displayFields]⟩
  | @leaf name kind x fields members hx _ ih =>
    obtain ⟨text, ht⟩ := LeafKind.exists_shown hx
    obtain ⟨lines, hlines⟩ := ih hdistinct fun p hp => hv p (List.mem_cons_of_mem _ hp)
    refine ⟨(name ++ ": " ++ text) :: lines, ?_⟩
    rw [displayFields]
    simp only [hv (name, x) (by simp), ht, hlines, Except.map]
  | @message name type inner fields xs members hx _ ihx ih =>
    have hmembers : (xs.map (·.1)).Nodup := by
      rw [hx.names]
      exact hdistinct.1.1
    obtain ⟨innerLines, hinner⟩ := ihx hdistinct.1.2 fun p hp => memberIn_of_mem hmembers hp
    obtain ⟨lines, hlines⟩ := ih hdistinct.2 fun p hp => hv p (List.mem_cons_of_mem _ hp)
    have hdisplay : Schema.display indent (.mk type inner) (.message xs) = .ok innerLines := by
      rw [Schema.display]
      exact hinner
    refine ⟨(name ++ " \x7b") :: innerLines.map (indent ++ ·) ++ "\x7d" :: lines, ?_⟩
    rw [displayFields]
    simp only [hv (name, .message xs) (by simp), hdisplay, hlines, Except.map]

end

/-! ## 3. Schemas -/

section

variable {schema : Schema} {v : Value} {args : List Command.Arg}

/-- The texts of a value's plain fields stand for the arguments of its schema, in the same order, and the value is read
back from them. -/
theorem Schema.Holds.exists_texts (h : schema.Holds v) (hdistinct : schema.HasDistinctNames)
    (hargs : schema.args = .ok args) (hnodup : (args.map (·.name)).Nodup) :
    ∃ texts, schema.unbind v = .ok texts ∧ List.Forall₂ Command.Arg.Writes args texts ∧ schema.bind texts = .ok v := by
  obtain ⟨type, fields⟩ := schema
  obtain ⟨members, hholds, rfl⟩ := h
  obtain ⟨texts, hspell⟩ := hholds.exists_texts
  obtain ⟨args', hargs', hwrites⟩ := hspell.args
  rw [Schema.args] at hargs
  rw [Schema.fields, hargs] at hargs'
  cases hargs'
  have hmembers : (members.map (·.1)).Nodup := by
    rw [hspell.names]
    exact hdistinct.1
  have htexts : (texts.map (·.1)).Nodup := by
    rw [← map_eq_of_forall₂ (fun a p hwrite => hwrite.1) hwrites]
    exact hnodup
  -- The arguments have different names, so each text is found under its own.
  have hfind : ∀ p ∈ texts, Command.Values.find? texts p.1 = some p.2 := by
    intro p hp
    rw [Command.Values.find?, find?_eq_some_of_nodup htexts hp, Option.map_some]
  have hbind := hspell.bind hdistinct.1 hdistinct.2 hfind [] (by simp)
  have hunbind := hspell.unbind hdistinct.2 (fun p hp => memberIn_of_mem hmembers hp) [] (by simpa using htexts)
  refine ⟨texts, ?_, hwrites, ?_⟩
  · rw [Schema.unbind]
    exact hunbind
  · rw [Schema.bind]
    simp only [Schema.fields, List.nil_append] at hbind
    rw [hbind]
    rfl

/-- Every value of a schema can be shown. -/
theorem Schema.Holds.exists_display (h : schema.Holds v) (hdistinct : schema.HasDistinctNames) (indent : String) :
    ∃ lines, schema.display indent v = .ok lines := by
  obtain ⟨type, fields⟩ := schema
  obtain ⟨members, hholds, rfl⟩ := h
  have hmembers : (members.map (·.1)).Nodup := by
    rw [hholds.names]
    exact hdistinct.1
  rw [Schema.display]
  exact FieldsHold.exists_display hholds hdistinct.2 indent fun p hp => memberIn_of_mem hmembers hp

end

end ContractShell
