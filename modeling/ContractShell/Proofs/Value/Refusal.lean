import ContractShell.Proofs.Value.Acceptance

/-!
Messages from any map of texts: which field is blamed when there is none.

The plain fields of a schema are its arguments. An argument is refused when there is no text for it, or one that does not
denote a value of its kind. The message fails with what the first such argument is refused for, and other texts do not
matter. This is a fault of that argument, with one exception: a numeral that is too long is blamed on no field.

## Main statements

* `LeafKind.bind_textRefusal?`: what comes of any text for a plain field.
* `placed_of_nodup`: the members of a message are for all its fields, in order, where no two of them share a name.
* `FieldsTake.bind_refusal?`: what comes of any texts for the fields of a message.
* `Schema.binds_or_blames`: what comes of any texts for a schema, and when the first refused argument is blamed.
* `not_blamesFirst_longNumeral`: a number of more digits than are read.
-/

namespace ContractShell

open Command (Values)

/-! ## 1. Whole tokens -/

namespace Command

theorem integer?_whole_iff {signed : Bool} {s : List Char} : integer? signed s = some (s, []) ↔ IsInteger signed s := by
  constructor
  · exact fun h => (of_integer? h).2
  · intro h
    have hwhole := integer?_append h (r := []) rfl
    rwa [List.append_nil] at hwhole

theorem hex?_whole_iff {s : List Char} : hex? s = some (s, []) ↔ IsHex s := by
  constructor
  · exact fun h => (of_hex? h).2
  · intro h
    have hwhole := hex?_append h (r := []) rfl
    rwa [List.append_nil] at hwhole

instance (signed : Bool) (s : List Char) : Decidable (IsInteger signed s) := decidable_of_iff _ integer?_whole_iff

instance (s : List Char) : Decidable (IsHex s) := decidable_of_iff _ hex?_whole_iff

/-- Why a text is no value of a kind. Bytes may be empty, and strings and truth values may be any text. -/
def Kind.misfit? (kind : Kind) (s : List Char) : Option TextFault :=
  match kind with
  | .int => if IsInteger true s then none else some .notAnInteger
  | .uint => if IsInteger false s then none else some .notUnsigned
  | .hexBytes => if s = [] ∨ IsHex s then none else some (.hex .notHex)
  | .base58Bytes => if s.all Base58.isDigit then none else some .notBase58
  | _ => none

/-- What the text of an argument is refused for. -/
def Arg.textRefusal? (a : Arg) (text : String) : Option BindFault :=
  ((a.kind.misfit? text.toList).map (.invalid a.name)).or (a.fault? text)

/-- What an argument is refused for: there is no text for it, or its text is refused. -/
def Arg.refusal? (values : Values) (a : Arg) : Option BindFault :=
  match values.find? a.name with
  | none => some (.missing a.name)
  | some text => a.textRefusal? text

end Command

/-- What the first of some arguments that is refused is refused for. -/
def firstRefusal? (values : Values) (args : List Command.Arg) : Option BindFault :=
  args.findSome? fun a => a.refusal? values

/-! ## 2. Plain fields -/

/-- A value is one that a text can give for a plain field of a kind. -/
inductive LeafKind.Gives : LeafKind → Value → Prop where
  | bool (b : Bool) : Gives .bool (.bool b)
  | int (n : Int) : Gives .int (.int n)
  | uint {n : Int} (hlow : 0 ≤ n) : Gives .uint (.int n)
  | string (s : String) : Gives .string (.text s)
  | bytes (b : Bytes) : Gives .bytes (.bytes b)
  | bytesHex (b : Bytes) : Gives .bytesHex (.bytes b)
  | bytesAddress (b : Bytes) : Gives .bytesAddress (.bytes b)

theorem bindInteger_of_not_isInteger {signed : Bool} {text : String} (h : ¬ Command.IsInteger signed text.toList)
    (field : String) :
    bindInteger signed field text = .error (.invalid field (if signed then .notAnInteger else .notUnsigned)) := by
  unfold bindInteger
  split
  · rename_i w hread
    obtain ⟨hw, hinteger⟩ := Command.of_integer? hread
    rw [List.append_nil] at hw
    exact absurd (hw ▸ hinteger) h
  · rfl

/-- An attempt with a text that may be no value of its kind: it fails for that, or as one with a value of the kind. -/
theorem FailsOnlyWith.of_misfit {α : Type} {P : α → Prop} {r : Except BindFault α} {takes : Prop} [Decidable takes]
    {field : String} {detail : TextFault} {fault : Option BindFault} (htakes : takes → FailsOnlyWith P fault r)
    (hmisfit : ¬ takes → r = .error (.invalid field detail)) :
    FailsOnlyWith P (((if takes then none else some detail).map (.invalid field)).or fault) r := by
  by_cases h : takes
  · rw [if_pos h, Option.map_none, Option.none_or]
    exact htakes h
  · rw [if_neg h, Option.map_some, Option.some_or, hmisfit h]
    exact .failed _

/-- What comes of any text for a field of bytes in hexadecimal. -/
theorem bindBytes_textRefusal? (field text : String) :
    FailsOnlyWith (fun x => ∃ b, x = .bytes b) ((⟨field, .hexBytes, false⟩ : Command.Arg).textRefusal? text)
      (LeafKind.bytes.bind field text) := by
  refine .of_misfit (fun htakes => ?_) fun hmisfit => ?_
  · by_cases hempty : text = ""
    · subst hempty
      exact .done ⟨[], rfl⟩
    · have hhex := htakes.resolve_left fun hnil => hempty (String.toList_eq_nil_iff.mp hnil)
      exact (bindBytes_of_isHex hhex field).imp fun x ⟨b, hx, _⟩ => ⟨b, hx⟩
  · obtain ⟨hne, hhex⟩ := not_or.mp hmisfit
    rw [LeafKind.bind, bytesOfHexText_of_not_isHex (fun hempty => hne (String.toList_eq_nil_iff.mpr hempty)) hhex]

/-- What comes of any text for a plain field. -/
theorem LeafKind.bind_textRefusal? (kind : LeafKind) (field text : String) :
    FailsOnlyWith kind.Gives ((⟨field, kind.argKind, false⟩ : Command.Arg).textRefusal? text) (kind.bind field text) := by
  cases kind with
  | bool => exact .done (.bool _)
  | string => exact .done (.string text)
  | int =>
    refine .of_misfit (fun htakes => ?_) fun hmisfit => bindInteger_of_not_isInteger hmisfit field
    exact (bindInteger_of_isInteger htakes field).imp fun x ⟨n, hx, _⟩ => hx ▸ .int n
  | uint =>
    refine .of_misfit (fun htakes => ?_) fun hmisfit => bindInteger_of_not_isInteger hmisfit field
    exact (bindInteger_of_isInteger htakes field).imp fun x ⟨n, hx, _, hlow⟩ => hx ▸ .uint (hlow rfl)
  | bytes => exact (bindBytes_textRefusal? field text).imp fun x ⟨b, hx⟩ => hx ▸ .bytes b
  | bytesHex => exact (bindBytes_textRefusal? field text).imp fun x ⟨b, hx⟩ => hx ▸ .bytesHex b
  | bytesAddress =>
    have hread := Base58.exists_decode_iff (s := text.toList)
    rw [← List.all_eq_true] at hread
    refine .of_misfit (fun htakes => ?_) fun hmisfit => ?_
    · obtain ⟨b, hb⟩ := hread.mpr htakes
      rw [bind, hb]
      exact .done (.bytesAddress b)
    · rw [bind]
      cases hdecode : Base58.decode text.toList with
      | ok b => exact absurd (hread.mp ⟨b, hdecode⟩) hmisfit
      | error c => rfl

/-- An argument is refused for a fault of its own, or for a numeral that is too long. -/
theorem Command.Arg.refusal?_eq_some {values : Values} {a : Command.Arg} {fault : BindFault}
    (h : a.refusal? values = some fault) :
    (values.find? a.name = none ∧ fault = .missing a.name) ∨
      ∃ text, values.find? a.name = some text ∧
        ((∃ detail, fault = .invalid a.name detail) ∨ ∃ digits, fault = .numeral (.tooLong digits)) := by
  unfold refusal? at h
  cases hfind : values.find? a.name with
  | none =>
    rw [hfind] at h
    cases h
    exact .inl ⟨rfl, rfl⟩
  | some text =>
    rw [hfind] at h
    refine .inr ⟨text, rfl, ?_⟩
    rcases Option.or_eq_some_iff.mp h with h | ⟨-, h⟩
    · obtain ⟨detail, -, rfl⟩ := Option.map_eq_some_iff.mp h
      exact .inl ⟨detail, rfl⟩
    · rcases fault?_eq_some h with ⟨digits, rfl⟩ | ⟨digits, rfl⟩
      · exact .inr ⟨digits, rfl⟩
      · exact .inl ⟨_, rfl⟩

/-! ## 3. The shape of a message -/

/-- A field comes behind others, or takes the place of the one with its name. -/
def placeField (f : Field) : List Field → List Field
  | [] => [f]
  | g :: r => if g.name = f.name then f :: r else g :: placeField f r

/-- The fields that members are for: of several fields with one name the last, in the place of the first. -/
def placed (fields : List Field) : List Field := fields.foldl (fun done f => placeField f done) []

mutual

/-- A value has the shape of a field: it is of the field's kind, or a message with the members of the field's schema. -/
inductive Field.Shapes : Field → Value → Prop where
  | leaf {name : String} {kind : LeafKind} {x : Value} (hx : kind.Gives x) : Field.Shapes (.leaf name kind) x
  | message {name type : String} {inner : List Field} {members : List (String × Value)}
      (h : MembersShaped (placed inner) members) : Field.Shapes (.message name (.mk type inner)) (.message members)

/-- Members are those of some fields, one for each and in their order. -/
inductive MembersShaped : List Field → List (String × Value) → Prop where
  | nil : MembersShaped [] []
  | cons {f : Field} {x : Value} {fields : List Field} {members : List (String × Value)} (hx : f.Shapes x)
      (h : MembersShaped fields members) : MembersShaped (f :: fields) ((f.name, x) :: members)

end

/-- A value has the shape of a schema: it is a message with the members of the schema. -/
def Schema.Shapes (schema : Schema) (v : Value) : Prop :=
  ∃ members, v = .message members ∧ MembersShaped (placed schema.fields) members

/-- Where no two fields share a name, the members are for all of them. -/
theorem placed_of_nodup {fields : List Field} (h : (fields.map (·.name)).Nodup) : placed fields = fields := by
  have hplace : ∀ (f : Field) (done : List Field), f.name ∉ done.map (·.name) → placeField f done = done ++ [f] := by
    intro f done hf
    induction done with
    | nil => rfl
    | cons g done ih =>
      rw [List.map_cons, List.mem_cons, not_or] at hf
      rw [placeField, if_neg (Ne.symm hf.1), ih hf.2, List.cons_append]
  -- The fields that were placed are those so far, and the next one has a new name.
  suffices hfrom : ∀ done, (List.map (·.name) (done ++ fields)).Nodup →
      fields.foldl (fun done f => placeField f done) done = done ++ fields from hfrom [] h
  clear h
  induction fields with
  | nil =>
    intro done _
    rw [List.append_nil]
    rfl
  | cons f fields ih =>
    intro done h
    rw [List.append_cons] at h ⊢
    have hnew : f.name ∉ done.map (·.name) := by
      rw [List.map_append, List.map_append, List.nodup_append, List.nodup_append] at h
      intro hf
      exact h.1.2.2 _ hf _ (by simp) rfl
    rw [List.foldl_cons, hplace f done hnew]
    exact ih _ h

/-- A member that is set has the place of its field. -/
theorem MembersShaped.set {f : Field} {x : Value} (hx : f.Shapes x) {fields : List Field}
    {members : List (String × Value)} (h : MembersShaped fields members) :
    MembersShaped (placeField f fields) (Value.setMember f.name x members) := by
  -- Fields and members are searched for the name in step.
  induction fields generalizing members with
  | nil =>
    cases h
    exact .cons hx .nil
  | cons g fields ih =>
    cases h with
    | cons hy h =>
      rw [placeField, Value.setMember]
      by_cases hname : g.name = f.name
      · rw [if_pos hname, if_pos hname, hname]
        exact .cons hx h
      · rw [if_neg hname, if_neg hname]
        exact .cons hy (ih h)

/-! ## 4. Messages -/

mutual

/-- No message in a schema is one whose schema is not known. -/
def Schema.IsKnown : Schema → Prop
  | .mk _ fields => areKnown fields

/-- No message in a list of fields is one whose schema is not known. -/
def areKnown : List Field → Prop
  | [] => True
  | .leaf _ _ :: r => areKnown r
  | .message _ schema :: r => schema.IsKnown ∧ areKnown r
  | .unknown _ :: _ => False

end

/-- A schema without unknown messages has arguments. -/
theorem Schema.IsKnown.exists_args {schema : Schema} (h : schema.IsKnown) : ∃ args, schema.args = .ok args := by
  refine Schema.args.induct (motive_1 := fun schema => schema.IsKnown → ∃ args, schema.args = .ok args)
    (motive_2 := fun fields => areKnown fields → ∃ args, argsOf fields = .ok args) ?_ ?_ ?_ ?_ ?_ ?_ schema h
  · intro _ fields ih h
    rw [Schema.args]
    exact ih h
  · intro _
    exact ⟨[], by rw [argsOf]⟩
  · intro name kind r ih h
    obtain ⟨args, hargs⟩ := ih h
    exact ⟨_, by rw [argsOf, hargs]; rfl⟩
  · intro name schema r fault hfault ih h
    obtain ⟨args, hargs⟩ := ih h.1
    rw [hfault] at hargs
    cases hargs
  · intro name schema r inner hinner _ ih h
    obtain ⟨args, hargs⟩ := ih h.2
    exact ⟨_, by rw [argsOf, hinner, hargs]; rfl⟩
  · intro name r h
    exact h.elim

theorem firstRefusal?_cons (values : Values) (a : Command.Arg) (args : List Command.Arg) :
    firstRefusal? values (a :: args) = (a.refusal? values).or (firstRefusal? values args) := by
  unfold firstRefusal?
  rw [List.findSome?_cons]
  cases a.refusal? values <;> rfl

theorem firstRefusal?_append (values : Values) (args more : List Command.Arg) :
    firstRefusal? values (args ++ more) = (firstRefusal? values args).or (firstRefusal? values more) :=
  List.findSome?_append

section

variable {values : Values} {fields : List Field} {args : List Command.Arg}

/-- What comes of any texts for the fields of a message: what its first refused argument is refused for, or members. -/
theorem FieldsTake.bind_refusal? (h : FieldsTake fields args) {before : List Field} {done : List (String × Value)}
    (hdone : MembersShaped before done) :
    FailsOnlyWith (MembersShaped (fields.foldl (fun done f => placeField f done) before)) (firstRefusal? values args)
      (bindFields values fields done) := by
  -- Nested messages start with no members, and the members so far are those of the fields before.
  induction h generalizing before done with
  | nil =>
    rw [bindFields]
    exact .done hdone
  | @leaf name kind fields args _ ih =>
    rw [firstRefusal?_cons, Command.Arg.refusal?, List.foldl_cons]
    cases hfind : values.find? name with
    | none =>
      rw [bindFields, hfind]
      exact .failed _
    | some text =>
      rw [bindFields_leaf hfind]
      exact (kind.bind_textRefusal? name text).bind fun x hx => ih (hdone.set (f := .leaf name kind) (.leaf hx))
  | @message name type inner fields innerArgs args _ _ ihInner ih =>
    have hinner : FailsOnlyWith (Schema.mk type inner).Shapes (firstRefusal? values innerArgs)
        (Schema.bind values (.mk type inner)) := by
      rw [Schema.bind]
      exact (ihInner .nil).map fun members hmembers => ⟨members, rfl, hmembers⟩
    rw [bindFields_message, firstRefusal?_append, List.foldl_cons]
    refine hinner.bind fun x hx => ?_
    obtain ⟨xs, rfl, hxs⟩ := hx
    exact ih (hdone.set (f := .message name (.mk type inner)) (.message hxs))

/-- Texts that are not those of arguments do not matter. -/
theorem FieldsTake.bind_congr (h : FieldsTake fields args) {others : Values}
    (hsame : ∀ a ∈ args, others.find? a.name = values.find? a.name) (done : List (String × Value)) :
    bindFields others fields done = bindFields values fields done := by
  induction h generalizing done with
  | nil => rw [bindFields, bindFields]
  | @leaf name kind fields args _ ih =>
    have hfirst : others.find? name = values.find? name := hsame _ List.mem_cons_self
    have hrest := ih fun a ha => hsame a (List.mem_cons_of_mem _ ha)
    rw [bindFields, bindFields, hfirst]
    simp only [hrest]
  | @message name type inner fields innerArgs args _ _ ihInner ih =>
    have hinner := ihInner fun a ha => hsame a (List.mem_append_left _ ha)
    have hrest := ih fun a ha => hsame a (List.mem_append_right _ ha)
    rw [bindFields_message, bindFields_message, Schema.bind, Schema.bind, hinner]
    simp only [hrest]

end

/-! ## 5. Schemas -/

/-- A fault is one of an argument: that it has no text, if there is none, and otherwise that the text is not valid. -/
def BindFault.IsOf (fault : BindFault) (values : Values) (a : Command.Arg) : Prop :=
  (values.find? a.name = none ∧ fault = .missing a.name) ∨
    ∃ text detail, values.find? a.name = some text ∧ fault = .invalid a.name detail

/-- Texts make a message of a schema when none of some arguments is refused, and otherwise fail with a fault of the first
one that is. -/
def Schema.BlamesFirst (schema : Schema) (args : List Command.Arg) (values : Values) : Prop :=
  ((∀ a ∈ args, a.refusal? values = none) → ∃ v, schema.bind values = .ok v ∧ schema.Shapes v) ∧
    ∀ before a after, args = before ++ a :: after → (∀ b ∈ before, b.refusal? values = none) →
      a.refusal? values ≠ none → ∃ fault, schema.bind values = .error fault ∧ fault.IsOf values a

section

variable {schema : Schema} {args : List Command.Arg} (hargs : schema.args = .ok args) (values : Values)

include hargs

theorem Schema.bind_refusal? : FailsOnlyWith schema.Shapes (firstRefusal? values args) (schema.bind values) := by
  obtain ⟨type, fields⟩ := schema
  rw [Schema.args] at hargs
  rw [Schema.bind]
  exact ((fieldsTake_of_argsOf hargs).bind_refusal? .nil).map fun members hmembers => ⟨members, rfl, hmembers⟩

theorem Schema.bind_congr {others : Values} (hsame : ∀ a ∈ args, others.find? a.name = values.find? a.name) :
    schema.bind others = schema.bind values := by
  obtain ⟨type, fields⟩ := schema
  rw [Schema.args] at hargs
  rw [Schema.bind, Schema.bind, (fieldsTake_of_argsOf hargs).bind_congr hsame]

/-- The first refused argument is blamed unless it is refused for a numeral that is too long. -/
theorem Schema.blamesFirst_iff :
    schema.BlamesFirst args values ↔ ∀ digits, firstRefusal? values args ≠ some (.numeral (.tooLong digits)) := by
  have hbind := schema.bind_refusal? hargs values
  constructor
  · -- A numeral that is too long is blamed on no field, so it cannot be what the first refused argument is refused for.
    intro hblames digits hfirst
    obtain ⟨before, a, after, hsplit, ha, hbefore⟩ := List.findSome?_eq_some_iff.mp hfirst
    rw [hfirst] at hbind
    obtain ⟨fault, hfault, hof⟩ := hblames.2 before a after hsplit hbefore (by rw [ha]; exact Option.some_ne_none _)
    rw [hbind.eq_error] at hfault
    cases hfault
    rcases hof with ⟨-, heq⟩ | ⟨text, detail, -, heq⟩ <;> cases heq
  · intro hshort
    refine ⟨fun hall => ?_, fun before a after hsplit hbefore ha => ?_⟩
    · have hnone : firstRefusal? values args = none := List.findSome?_eq_none_iff.mpr hall
      rw [hnone] at hbind
      cases hr : schema.bind values with
      | error fault =>
        rw [hr] at hbind
        cases hbind
      | ok v =>
        rw [hr] at hbind
        cases hbind with
        | done hv => exact ⟨v, rfl, hv⟩
    · obtain ⟨fault, hfault⟩ := Option.ne_none_iff_exists'.mp ha
      have hfirst : firstRefusal? values args = some fault :=
        List.findSome?_eq_some_iff.mpr ⟨before, a, after, hsplit, hfault, hbefore⟩
      rw [hfirst] at hbind
      refine ⟨fault, hbind.eq_error, ?_⟩
      rcases Command.Arg.refusal?_eq_some hfault with ⟨hnone, rfl⟩ | ⟨text, hfind, ⟨detail, rfl⟩ | ⟨digits, rfl⟩⟩
      · exact .inl ⟨hnone, rfl⟩
      · exact .inr ⟨text, detail, hfind, rfl⟩
      · exact absurd hfirst (hshort digits)

end

/-- A schema without unknown messages has arguments, and any texts make a message of its shape or fail with what the first
of the arguments that is refused is refused for. This is a fault of that argument unless it is for integers and its
numeral is too long. Texts that are not those of arguments do not matter. -/
theorem Schema.binds_or_blames {schema : Schema} (h : schema.IsKnown) :
    ∃ args, schema.args = .ok args ∧ ∀ values,
      FailsOnlyWith schema.Shapes (firstRefusal? values args) (schema.bind values) ∧
      (schema.BlamesFirst args values ↔ ∀ digits, firstRefusal? values args ≠ some (.numeral (.tooLong digits))) ∧
      ∀ others : Values, (∀ a ∈ args, others.find? a.name = values.find? a.name) →
        schema.bind others = schema.bind values := by
  obtain ⟨args, hargs⟩ := h.exists_args
  refine ⟨args, hargs, fun values => ?_⟩
  exact ⟨schema.bind_refusal? hargs values, schema.blamesFirst_iff hargs values,
    fun others => schema.bind_congr hargs values⟩

/-- A number without a text comes before bytes that are not hexadecimal, and is blamed. -/
theorem binds_or_blames_twoRefused :
    numberAndBytes.IsKnown ∧ numberAndBytes.args = .ok sendBoth.args ∧
      numberAndBytes.BlamesFirst sendBoth.args [("b", "xyz")] ∧
      numberAndBytes.bind [("b", "xyz")] = .error (.missing "n") := by
  have hknown : numberAndBytes.IsKnown := ⟨trivial, trivial⟩
  obtain ⟨args, hargs, hall⟩ := Schema.binds_or_blames hknown
  obtain rfl : sendBoth.args = args := Except.ok.inj hargs
  obtain ⟨hbind, hblames, -⟩ := hall [("b", "xyz")]
  have hfirst : firstRefusal? [("b", "xyz")] sendBoth.args = some (.missing "n") := by decide
  rw [hfirst] at hbind hblames
  refine ⟨hknown, hargs, hblames.mpr (fun digits heq => ?_), hbind.eq_error⟩
  cases heq

/-- A text for an integer that is one is refused only for its length. -/
theorem Command.Arg.textRefusal?_of_isInteger {text : String} (h : Command.IsInteger true text.toList) (field : String) :
    (⟨field, .int, false⟩ : Command.Arg).textRefusal? text = numeralFault? text := by
  unfold textRefusal? Command.Kind.misfit?
  simp only [if_pos h, Option.map_none, Option.none_or, fault?]

/-- A message with a number. -/
def oneNumber : Schema := .mk "T" [.leaf "n" .int]

/-- A numeral with one digit more than are read. -/
def longNumeral : String := String.ofList (List.replicate (Integer.maxDigits + 1) '1')

theorem isDigit_of_mem_longNumeral : ∀ c ∈ longNumeral.toList, Text.isDigit c = true := by
  intro c hc
  rw [longNumeral, String.toList_ofList] at hc
  rw [List.eq_of_mem_replicate hc]
  decide

theorem length_longNumeral : longNumeral.toList.length = Integer.maxDigits + 1 := by
  rw [longNumeral, String.toList_ofList, List.length_replicate]

/-- The numeral is one of the argument's kind and is refused, and no field is blamed. -/
theorem not_blamesFirst_longNumeral :
    oneNumber.IsKnown ∧ oneNumber.args = .ok [⟨"n", .int, false⟩] ∧
      oneNumber.bind [("n", longNumeral)] = .error (.numeral (.tooLong (Integer.maxDigits + 1))) ∧
      ¬ oneNumber.BlamesFirst [⟨"n", .int, false⟩] [("n", longNumeral)] := by
  have hargs : oneNumber.args = .ok [⟨"n", .int, false⟩] := rfl
  have hinteger : Command.IsInteger true longNumeral.toList := by
    refine ⟨_, ⟨fun hnil => ?_, isDigit_of_mem_longNumeral⟩, .inl rfl⟩
    have hlength := length_longNumeral
    rw [hnil] at hlength
    cases hlength
  have hcount : longNumeral.toList.countP Text.isDigit = Integer.maxDigits + 1 := by
    rw [List.countP_eq_length.mpr isDigit_of_mem_longNumeral, length_longNumeral]
  have hfault : numeralFault? longNumeral = some (.numeral (.tooLong (Integer.maxDigits + 1))) := by
    unfold numeralFault?
    rw [hcount]
    exact if_pos (Nat.lt_succ_self _)
  have htext : Command.Arg.textRefusal? ⟨"n", .int, false⟩ longNumeral =
      some (.numeral (.tooLong (Integer.maxDigits + 1))) := by
    rw [Command.Arg.textRefusal?_of_isInteger hinteger, hfault]
  have hfirst : firstRefusal? [("n", longNumeral)] [⟨"n", .int, false⟩] =
      some (.numeral (.tooLong (Integer.maxDigits + 1))) := by
    have hfind : Values.find? [("n", longNumeral)] "n" = some longNumeral := rfl
    rw [firstRefusal?_cons, Command.Arg.refusal?, hfind]
    simp only [htext, Option.some_or]
  have hbind := oneNumber.bind_refusal? hargs [("n", longNumeral)]
  rw [hfirst] at hbind
  refine ⟨trivial, hargs, hbind.eq_error, fun hblames => ?_⟩
  exact (oneNumber.blamesFirst_iff hargs _).mp hblames _ hfirst

end ContractShell
