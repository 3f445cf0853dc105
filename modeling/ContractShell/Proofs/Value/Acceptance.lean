import ContractShell.Proofs.Bytes.Base58
import ContractShell.Proofs.Command.Arguments
import ContractShell.Proofs.Steps
import ContractShell.Proofs.Value.Binding
import ContractShell.Proofs.Value.HexText

/-!
Messages from the arguments of a command that was read in full.

The kinds of arguments and the kinds of fields have rules of their own for what a text may look like, and the fields of a
schema are visited once for the declaration of the command and once for the message. The two agree: a command that was
read in full has a text for each field, and a text that is an argument of its kind denotes a value of the field. There
are two exceptions. A token of hexadecimal digits may have an odd number of them, and a numeral may be too long.

## Main statements

* `LeafKind.bind_of_isValue`: what comes of a text that is an argument of its kind.
* `FieldsTake.bind`: what comes of the texts for the fields of a message.
* `Schema.bind_of_complete`: what comes of the arguments of a command that was read in full.
-/

namespace ContractShell

open Command (Values Declaration Registry Line)

/-! ## 1. Attempts of which it is known how they can fail -/

/-- An attempt fails with a fault, if there is one, and gives something that has a property, if there is none. -/
inductive FailsOnlyWith {α : Type} (P : α → Prop) : Option BindFault → Except BindFault α → Prop where
  | failed (fault : BindFault) : FailsOnlyWith P (some fault) (.error fault)
  | done {a : α} (h : P a) : FailsOnlyWith P none (.ok a)

section

variable {α β : Type} {P P' : α → Prop} {Q : β → Prop} {fault more : Option BindFault} {r : Except BindFault α}

theorem FailsOnlyWith.eq_error {fault : BindFault} (h : FailsOnlyWith P (some fault) r) : r = .error fault := by
  cases h
  rfl

theorem FailsOnlyWith.imp (h : FailsOnlyWith P fault r) (hP : ∀ a, P a → P' a) : FailsOnlyWith P' fault r := by
  cases h with
  | failed fault => exact .failed fault
  | done ha => exact .done (hP _ ha)

theorem FailsOnlyWith.map (h : FailsOnlyWith P fault r) {f : α → β} (hf : ∀ a, P a → Q (f a)) :
    FailsOnlyWith Q fault (r.map f) := by
  cases h with
  | failed fault => exact .failed fault
  | done ha => exact .done (hf _ ha)

/-- What comes after an attempt can fail only when that one does not. -/
theorem FailsOnlyWith.bind (h : FailsOnlyWith P fault r) {f : α → Except BindFault β}
    (hf : ∀ a, P a → FailsOnlyWith Q more (f a)) : FailsOnlyWith Q (fault.or more) (r >>= f) := by
  cases h with
  | failed fault => exact .failed fault
  | done ha => exact hf _ ha

end

/-! ## 2. Plain fields -/

/-- A numeral has more digits than are read. -/
def numeralFault? (text : String) : Option BindFault :=
  let digits := text.toList.countP Text.isDigit
  if Integer.maxDigits < digits then some (.numeral (.tooLong digits)) else none

/-- Hexadecimal digits, with a mark in front or without one, are an odd number. -/
def digitsFault? (field text : String) : Option BindFault :=
  let digits := (dropHexMark text.toList).length
  if digits % 2 = 1 then some (.invalid field (.hex (.oddDigits digits))) else none

/-- Why the text of an argument, although it is one of the argument's kind, does not denote a value. -/
def Command.Arg.fault? (a : Command.Arg) (text : String) : Option BindFault :=
  match a.kind with
  | .int | .uint => numeralFault? text
  | .hexBytes => digitsFault? a.name text
  | _ => none

/-- It is a numeral that is too long, or hexadecimal digits are an odd number. -/
theorem Command.Arg.fault?_eq_some {a : Command.Arg} {text : String} {fault : BindFault} (h : a.fault? text = some fault) :
    (∃ digits, fault = .numeral (.tooLong digits)) ∨ ∃ digits, fault = .invalid a.name (.hex (.oddDigits digits)) := by
  have hnumeral (h : numeralFault? text = some fault) : ∃ digits, fault = .numeral (.tooLong digits) := by
    rw [numeralFault?, Option.ite_none_right_eq_some] at h
    exact ⟨_, (Option.some.inj h.2).symm⟩
  unfold fault? at h
  split at h
  · exact .inl (hnumeral h)
  · exact .inl (hnumeral h)
  · rw [digitsFault?, Option.ite_none_right_eq_some] at h
    exact .inr ⟨_, (Option.some.inj h.2).symm⟩
  · cases h

/-- The fault of the first argument whose text has one. -/
def firstFault? (values : Values) (args : List Command.Arg) : Option BindFault :=
  args.findSome? fun a => (values.find? a.name).bind a.fault?

/-- The sign of a token for integers is read off, and its digits are left. -/
theorem exists_readSign_of_isInteger {signed : Bool} {s : List Char} (h : Command.IsInteger signed s) :
    ∃ negative w, Integer.readSign (Text.trimBy Integer.isEdge s) = (negative, w) ∧ w ≠ [] ∧
      (∀ c ∈ w, Text.isDigit c = true) ∧ s.countP Text.isDigit = w.length ∧ (signed = false → negative = false) := by
  obtain ⟨w, ⟨hne, hw⟩, hs⟩ := h
  have hcount : w.countP Text.isDigit = w.length := List.countP_eq_length.mpr hw
  have hedges : ∀ c ∈ w, Integer.isEdge c = false := fun c hc => Integer.not_isEdge_of_isDigit (hw c hc)
  rcases hs with rfl | rfl | ⟨hsigned, rfl⟩
  · refine ⟨false, s, ?_, hne, hw, hcount, fun _ => rfl⟩
    rw [Integer.trimBy_of_forall hedges, Integer.readSign_of_isDigit hw]
  · refine ⟨false, w, ?_, hne, hw, ?_, fun _ => rfl⟩
    · rw [Integer.trimBy_of_forall (List.forall_mem_cons.mpr ⟨by decide, hedges⟩)]
      rfl
    · rw [List.countP_cons_of_neg (by decide), hcount]
  · refine ⟨true, w, ?_, hne, hw, ?_, fun hunsigned => ?_⟩
    · rw [Integer.trimBy_of_forall (List.forall_mem_cons.mpr ⟨by decide, hedges⟩)]
      rfl
    · rw [List.countP_cons_of_neg (by decide), hcount]
    · rw [hsigned] at hunsigned
      cases hunsigned

/-- A token for integers denotes one that can be written, unless it has too many digits. -/
theorem bindInteger_of_isInteger {signed : Bool} {text : String} (h : Command.IsInteger signed text.toList)
    (field : String) :
    FailsOnlyWith (fun x => ∃ n : Int, x = .int n ∧ Integer.isWritable n = true ∧ (signed = false → 0 ≤ n))
      (numeralFault? text) (bindInteger signed field text) := by
  obtain ⟨negative, w, hsign, hne, hw, hcount, hunsigned⟩ := exists_readSign_of_isInteger h
  have hwhole := Command.integer?_append h (r := []) rfl
  rw [List.append_nil] at hwhole
  have hread := Integer.read_of_readSign hsign hne hw
  unfold bindInteger numeralFault?
  rw [hwhole, hcount]
  by_cases hlong : Integer.maxDigits < w.length
  · rw [if_pos hlong] at hread
    simp only [hread, if_pos hlong]
    exact .failed _
  · rw [if_neg hlong] at hread
    simp only [hread, if_neg hlong]
    refine .done ⟨_, rfl, ?_, fun hs => ?_⟩
    · have hvalue := Integer.ofDigitChars_lt hw 0
      rw [Nat.zero_add, Nat.one_mul] at hvalue
      have hpow : ∀ digits, w.length ≤ digits → Nat.pow 10 w.length ≤ Nat.pow 10 digits :=
        fun _ hle => Nat.pow_le_pow_right (by decide) hle
      have habs : (if negative = true then -(Nat.ofDigitChars 10 w 0 : Int) else Nat.ofDigitChars 10 w 0).natAbs =
          Nat.ofDigitChars 10 w 0 := by
        split <;> simp
      rw [Integer.isWritable, decide_eq_true_eq, habs]
      exact Nat.lt_of_lt_of_le hvalue (hpow Integer.maxDigits (Nat.not_lt.mp hlong))
    · rw [hunsigned hs, if_neg (by decide)]
      exact Int.natCast_nonneg _

/-- A token of hexadecimal digits denotes bytes, at least one, unless its digits are an odd number. -/
theorem bindBytes_of_isHex {text : String} (h : Command.IsHex text.toList) (field : String) :
    FailsOnlyWith (fun x => ∃ b, x = .bytes b ∧ b ≠ []) (digitsFault? field text) (LeafKind.bytes.bind field text) := by
  obtain ⟨hne, hw⟩ := dropHexMark_of_isHex h
  have hlength := Hex.length_decode? hw
  unfold digitsFault? LeafKind.bind
  rw [bytesOfHexText_of_isHex h]
  by_cases hodd : (dropHexMark text.toList).length % 2 = 1
  · rw [if_pos hodd, Option.map_eq_none_iff] at hlength
    simp only [hlength, Option.elim_none, if_pos hodd]
    exact .failed _
  · rw [if_neg hodd] at hlength
    obtain ⟨b, hb, hhalf⟩ := Option.map_eq_some_iff.mp hlength
    simp only [hb, Option.elim_some, if_neg hodd]
    refine .done ⟨b, rfl, ?_⟩
    rintro rfl
    have hpos : 0 < (dropHexMark text.toList).length := List.length_pos_iff.mpr hne
    rw [List.length_nil] at hhalf
    omega

/-- A text that is an argument of its kind denotes a value of the field, but for the two faults. -/
theorem LeafKind.bind_of_isValue {kind : LeafKind} {text : String} (h : kind.argKind.IsValue text.toList)
    (field : String) :
    FailsOnlyWith kind.Fits ((⟨field, kind.argKind, false⟩ : Command.Arg).fault? text) (kind.bind field text) := by
  cases kind with
  | bool => exact .done (.bool _)
  | string => exact .done (.string text)
  | int => exact (bindInteger_of_isInteger h field).imp fun x ⟨n, hx, hshort, _⟩ => hx ▸ .int hshort
  | uint => exact (bindInteger_of_isInteger h field).imp fun x ⟨n, hx, hshort, hlow⟩ => hx ▸ .uint (hlow rfl) hshort
  | bytes => exact (bindBytes_of_isHex h field).imp fun x ⟨b, hx, hne⟩ => hx ▸ .bytes hne
  | bytesHex => exact (bindBytes_of_isHex h field).imp fun x ⟨b, hx, hne⟩ => hx ▸ .bytesHex hne
  | bytesAddress =>
    show FailsOnlyWith _ none (LeafKind.bytesAddress.bind field text)
    obtain ⟨b, hb⟩ := Base58.exists_decode_iff.mpr h.2
    rw [LeafKind.bind, hb]
    exact .done (.bytesAddress b)

/-! ## 3. Messages -/

/-- There is a text for an argument, and it is one of the argument's kind. -/
def Command.Arg.IsGiven (values : Values) (a : Command.Arg) : Prop :=
  ∃ text, values.find? a.name = some text ∧ a.kind.IsValue text.toList

theorem member?_cons_self (name : String) (x : Value) (members : List (String × Value)) :
    Value.member? name ((name, x) :: members) = some x := by
  rw [Value.member?, List.find?_cons_of_pos (by simp), Option.map_some]

theorem member?_cons_of_ne {name field : String} (h : name ≠ field) (x : Value) (members : List (String × Value)) :
    Value.member? field ((name, x) :: members) = Value.member? field members := by
  rw [Value.member?, List.find?_cons_of_neg (by simpa using h)]
  rfl

/-- A member of another name in front changes nothing. -/
theorem FieldsAre.cons_member {sort : LeafKind → Value → Prop} {fields : List Field} {members : List (String × Value)}
    (h : FieldsAre sort fields members) {name : String} (x : Value) (hname : name ∉ fields.map (·.name)) :
    FieldsAre sort fields ((name, x) :: members) := by
  induction h with
  | nil => exact .nil
  | leaf hfind hx _ ih =>
    rw [List.map_cons, List.mem_cons, not_or] at hname
    exact .leaf ((member?_cons_of_ne hname.1 x _).trans hfind) hx (ih hname.2)
  | message hfind hlength hx _ _ ih =>
    rw [List.map_cons, List.mem_cons, not_or] at hname
    exact .message ((member?_cons_of_ne hname.1 x _).trans hfind) hlength hx (ih hname.2)

/-- The plain fields of a message, those of nested messages in their place, are arguments. -/
inductive FieldsTake : List Field → List Command.Arg → Prop where
  | nil : FieldsTake [] []
  | leaf {name : String} {kind : LeafKind} {fields : List Field} {args : List Command.Arg} (h : FieldsTake fields args) :
      FieldsTake (.leaf name kind :: fields) (⟨name, kind.argKind, false⟩ :: args)
  | message {name type : String} {inner fields : List Field} {innerArgs args : List Command.Arg}
      (hinner : FieldsTake inner innerArgs) (h : FieldsTake fields args) :
      FieldsTake (.message name (.mk type inner) :: fields) (innerArgs ++ args)

theorem fieldsTake_of_argsOf {fields : List Field} {args : List Command.Arg} (h : argsOf fields = .ok args) :
    FieldsTake fields args := by
  refine argsOf.induct (motive_1 := fun schema => ∀ args, schema.args = .ok args → FieldsTake schema.fields args)
    (motive_2 := fun fields => ∀ args, argsOf fields = .ok args → FieldsTake fields args) ?_ ?_ ?_ ?_ ?_ ?_ fields args h
  · intro _ fields ih args h
    rw [Schema.args] at h
    exact ih args h
  · intro args h
    rw [argsOf] at h
    cases h
    exact .nil
  · intro name kind r ih args h
    rw [argsOf] at h
    obtain ⟨rest, hrest, heq⟩ := of_map_eq_ok h
    cases heq
    exact .leaf (ih rest hrest)
  · intro name schema r fault hfault _ args h
    rw [argsOf, hfault] at h
    cases h
  · intro name schema r innerArgs hinner ihInner ih args h
    rw [argsOf, hinner] at h
    obtain ⟨rest, hrest, heq⟩ := of_map_eq_ok h
    cases heq
    obtain ⟨type, inner⟩ := schema
    exact .message (ihInner innerArgs hinner) (ih rest hrest)
  · intro name r args h
    rw [argsOf] at h
    cases h

theorem firstFault?_append (values : Values) (args more : List Command.Arg) :
    firstFault? values (args ++ more) = (firstFault? values args).or (firstFault? values more) :=
  List.findSome?_append

section

variable {values : Values} {name : String} {fields : List Field} {args : List Command.Arg}

theorem firstFault?_cons {a : Command.Arg} {text : String} (hfind : values.find? a.name = some text) :
    firstFault? values (a :: args) = (a.fault? text).or (firstFault? values args) := by
  unfold firstFault?
  rw [List.findSome?_cons, hfind, Option.bind_some]
  cases a.fault? text <;> rfl

theorem bindFields_leaf {text : String} (hfind : values.find? name = some text) (kind : LeafKind)
    (done : List (String × Value)) :
    bindFields values (.leaf name kind :: fields) done =
      kind.bind name text >>= fun v => bindFields values fields (Value.setMember name v done) := by
  rw [bindFields, hfind]
  cases h : kind.bind name text <;> simp only [h] <;> rfl

theorem bindFields_message (schema : Schema) (done : List (String × Value)) :
    bindFields values (.message name schema :: fields) done =
      schema.bind values >>= fun v => bindFields values fields (Value.setMember name v done) := by
  rw [bindFields]
  cases schema.bind values <;> rfl

/-- Members are added behind others, the right one for each of some fields. -/
def AddsMembers (done : List (String × Value)) (fields : List Field) (members : List (String × Value)) : Prop :=
  ∃ ms, members = done ++ ms ∧ ms.length = fields.length ∧ FieldsAre LeafKind.Fits fields ms

theorem AddsMembers.cons {f : Field} {x : Value} {done members : List (String × Value)}
    (h : AddsMembers (done ++ [(f.name, x)]) fields members) (hname : f.name ∉ fields.map (·.name))
    (hfield : ∀ ms, FieldsAre LeafKind.Fits fields ((f.name, x) :: ms) →
      FieldsAre LeafKind.Fits (f :: fields) ((f.name, x) :: ms)) : AddsMembers done (f :: fields) members := by
  obtain ⟨ms, rfl, hlength, hall⟩ := h
  refine ⟨(f.name, x) :: ms, ?_, congrArg (· + 1) hlength, hfield ms (hall.cons_member x hname)⟩
  rw [List.append_assoc, List.singleton_append]

theorem AddsMembers.isOf {members : List (String × Value)} (h : AddsMembers [] fields members) (type : String) :
    (Schema.mk type fields).IsOf LeafKind.Fits (.message members) := by
  obtain ⟨ms, heq, hlength, hall⟩ := h
  rw [List.nil_append] at heq
  exact ⟨ms, congrArg Value.message heq, hlength, hall⟩

/-- What comes of the texts for the fields of a message: its first fault, or a member for each field. -/
theorem FieldsTake.bind (h : FieldsTake fields args) (hgiven : ∀ a ∈ args, a.IsGiven values)
    (hnames : (fields.map (·.name)).Nodup) (hdistinct : haveDistinctNames fields) (done : List (String × Value))
    (hdone : ∀ p ∈ done, p.1 ∉ fields.map (·.name)) :
    FailsOnlyWith (AddsMembers done fields) (firstFault? values args) (bindFields values fields done) := by
  -- As for `FieldsSpell.bind`, each member is new and stands at the end.
  induction h generalizing done with
  | nil =>
    rw [bindFields]
    exact .done ⟨[], (List.append_nil done).symm, rfl, .nil⟩
  | @leaf name kind fields args _ ih =>
    rw [List.map_cons, List.nodup_cons] at hnames
    obtain ⟨text, hfind, hvalue⟩ := hgiven _ List.mem_cons_self
    rw [bindFields_leaf hfind, firstFault?_cons hfind]
    refine (LeafKind.bind_of_isValue hvalue name).bind fun x hx => ?_
    obtain ⟨hnew, hnext⟩ := @new_of_cons name _ done x hnames.1 hdone
    rw [Value.setMember_fresh name x done hnew]
    have hrest := ih (fun a ha => hgiven a (List.mem_cons_of_mem _ ha)) hnames.2 hdistinct _ hnext
    exact hrest.imp fun members hmembers =>
      hmembers.cons hnames.1 fun ms hms => .leaf (member?_cons_self name x ms) hx hms
  | @message name type inner fields innerArgs args _ _ ihInner ih =>
    rw [List.map_cons, List.nodup_cons] at hnames
    have hinner : FailsOnlyWith ((Schema.mk type inner).IsOf LeafKind.Fits) (firstFault? values innerArgs)
        (Schema.bind values (.mk type inner)) := by
      rw [Schema.bind]
      exact (ihInner (fun a ha => hgiven a (List.mem_append_left _ ha)) hdistinct.1.1 hdistinct.1.2 [] (by simp)).map
        fun members hmembers => hmembers.isOf type
    rw [bindFields_message, firstFault?_append]
    refine hinner.bind fun x hx => ?_
    obtain ⟨xs, rfl, hxs, hall⟩ := hx
    obtain ⟨hnew, hnext⟩ := @new_of_cons name _ done (.message xs) hnames.1 hdone
    rw [Value.setMember_fresh name _ done hnew]
    have hrest := ih (fun a ha => hgiven a (List.mem_append_right _ ha)) hnames.2 hdistinct.2 _ hnext
    exact hrest.imp fun members hmembers =>
      hmembers.cons hnames.1 fun ms hms => .message (member?_cons_self name _ ms) hxs hall hms

end

/-! ## 4. Commands that were read in full -/

namespace Command

/-- A command that was read in full has a text for each argument, if all are required and their names are different. -/
theorem Traced.Settles.isGiven {x : Traced} {d : Declaration} {text : List Char} (h : x.Settles d text)
    (hrequired : ∀ a ∈ d.args, a.optional = false) (hnames : (d.args.map (·.name)).Nodup) :
    ∀ a ∈ d.args, a.IsGiven x.result.args := by
  intro a ha
  have hnone : d.args.drop x.tokens.length = [] := by
    refine List.eq_nil_iff_forall_not_mem.mpr fun b hb => ?_
    have hoptional := h.left b hb
    rw [hrequired b (List.mem_of_mem_drop hb)] at hoptional
    cases hoptional
  have htokens : x.tokens.map (·.arg) = d.args := by
    have hsplit := List.take_append_drop x.tokens.length d.args
    rw [hnone, List.append_nil, ← h.given] at hsplit
    exact hsplit
  rw [← htokens] at ha
  obtain ⟨r, hr, rfl⟩ := List.mem_map.mp ha
  obtain ⟨-, token, -, -, hvalue⟩ := h.spelled r hr
  refine ⟨String.ofList r.value, ?_, by rwa [String.toList_ofList]⟩
  have hvalues := h.values hnames
  rw [hnone, List.map_nil, List.append_nil] at hvalues
  have hmem : (r.arg.name, String.ofList r.value) ∈ x.result.args := by
    rw [hvalues]
    exact List.mem_map_of_mem hr
  rw [Values.find?, find?_eq_some_of_nodup h.once hmem, Option.map_some]

end Command

theorem firstFault?_ne_missing (values : Values) (args : List Command.Arg) (field : String) :
    firstFault? values args ≠ some (.missing field) := by
  intro h
  obtain ⟨a, -, hfault⟩ := List.exists_of_findSome?_eq_some h
  obtain ⟨text, -, hfault⟩ := Option.bind_eq_some_iff.mp hfault
  rcases Command.Arg.fault?_eq_some hfault with ⟨digits, heq⟩ | ⟨digits, heq⟩ <;> cases heq

/-- A command that was read in full makes a message of the schema that it was declared for, unless a token has an odd
number of hexadecimal digits, or too many digits as a numeral. Then the first such token is reported, and never a field
without a text. -/
theorem Schema.bind_of_complete {schema : Schema} {d : Declaration} (hargs : schema.args = .ok d.args)
    (hdistinct : schema.HasDistinctNames) (hnames : (d.args.map (·.name)).Nodup) {commands : Registry} {text : String}
    {i : Command.Invocation} (hi : i ∈ (Line.ofText commands text).results) (hcomplete : i.complete = true)
    (hdeclared : i.declaration = some d) :
    FailsOnlyWith (schema.IsOf LeafKind.Fits) (firstFault? i.args d.args) (schema.bind i.args) ∧
      ∀ field, schema.bind i.args ≠ .error (.missing field) := by
  have hresults := Command.traceCommands_results commands (Command.gap text.toList).rest
  rw [show (Line.ofText commands text).results = _ from hresults.symm] at hi
  obtain ⟨x, hx, rfl⟩ := List.mem_map.mp hi
  obtain ⟨d', -, hdeclared', hsettles⟩ := Command.Traced.settles_of_complete (Command.gap_suffix _) hx hcomplete
  obtain rfl : d = d' := Option.some.inj (hdeclared.symm.trans hdeclared')
  have hgiven := hsettles.isGiven (required_of_args hargs) hnames
  obtain ⟨type, fields⟩ := schema
  rw [Schema.args] at hargs
  have hbind : FailsOnlyWith ((Schema.mk type fields).IsOf LeafKind.Fits) (firstFault? x.result.args d.args)
      (Schema.bind x.result.args (.mk type fields)) := by
    rw [Schema.bind]
    exact ((fieldsTake_of_argsOf hargs).bind hgiven hdistinct.1 hdistinct.2 [] (by simp)).map
      fun members hmembers => hmembers.isOf type
  refine ⟨hbind, fun field hmissing => ?_⟩
  rw [hmissing] at hbind
  generalize hfault : firstFault? x.result.args d.args = fault at hbind
  cases hbind with
  | failed fault => exact firstFault?_ne_missing _ _ _ hfault

/-- A message with a number and a nested message of bytes. -/
def numberAndBytes : Schema := .mk "T" [.leaf "n" .int, .message "m" (.mk "U" [.leaf "b" .bytes])]

/-- The command of this schema. -/
def sendBoth : Declaration := ⟨"send", "", [⟨"n", .int, false⟩, ⟨"b", .hexBytes, false⟩], false, .none, by decide⟩

/-- Three digits are an argument, and no bytes. -/
theorem bind_of_complete_threeDigits : ∃ i ∈ (Line.ofText (.ofDeclarations [sendBoth]) "send +5 abc").results, i.complete = true ∧
    i.declaration = some sendBoth ∧ numberAndBytes.bind i.args = .error (.invalid "b" (.hex (.oddDigits 3))) := by
  have hname : Command.name? "send +5 abc".toList = some ("send".toList, " +5 abc".toList) := by decide
  have hstart : (Command.gap "send +5 abc".toList).rest = "send +5 abc".toList := by rfl
  have hrest : (Command.readCommand (.ofDeclarations [sendBoth]) "send".toList " +5 abc".toList).2 = .ok [] := by rfl
  generalize hread : Command.readCommand (.ofDeclarations [sendBoth]) "send".toList " +5 abc".toList = read at hrest
  have hend : read.1.termination = .endOfInput := by
    rw [← hread]
    rfl
  have hdone : read.1.complete = true ∧ read.1.declaration = some sendBoth ∧
      read.1.args = [("n", "+5"), ("b", "abc")] := by
    rw [← hread]
    exact ⟨rfl, rfl, rfl⟩
  obtain ⟨hcomplete, hdeclared, hargs⟩ := hdone
  have hi : read.1 ∈ (Line.ofText (.ofDeclarations [sendBoth]) "send +5 abc").results := by
    unfold Line.ofText
    rw [hstart, ← Command.traceCommands_results,
      Command.traceCommands_of_last hname (by rw [hread]; exact hrest) (by rw [hread, hend]; decide), hread]
    exact List.mem_singleton.mpr rfl
  have hschema : numberAndBytes.args = .ok sendBoth.args := rfl
  have hbind := (Schema.bind_of_complete hschema ⟨by decide, ⟨by decide, trivial⟩, trivial⟩ (by decide) hi hcomplete
    hdeclared).1
  have hfault : firstFault? [("n", "+5"), ("b", "abc")] sendBoth.args = some (.invalid "b" (.hex (.oddDigits 3))) := by
    decide
  refine ⟨read.1, hi, hcomplete, hdeclared, ?_⟩
  rw [hargs] at hbind ⊢
  rw [hfault] at hbind
  exact hbind.eq_error

end ContractShell
