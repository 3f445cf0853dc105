import ContractShell.Proofs.Library.Faithful
import ContractShell.Proofs.Library.Number
import ContractShell.Proofs.Value.Binding

/-!
Which values of a schema are written, and what is said of the others.

An integer must be in the range of the type that its field is declared with. The first one that is not, in the order of the
schema, is named when the value is refused; where there is none the value is written and read back. All this presupposes
that no field has the name of an operation of messages, since such a field hides the operation.

## Main statements

* `Library.FieldsLinked.settle`: writing fields stops at the first integer that is out of range, and keeps all others.
* `Library.hidesNothing_of_encode`: a message that is written and read back hides no operation.
-/

namespace ContractShell

open Descriptor (FieldType Linked Pool Slot)
open Library (FieldsLinked IsFaithful Meets)

/-! ## 1. Values and ranges -/

/-- A plain value is of the sort of a kind: its integers are of any size, and its bytes may be none. -/
inductive LeafKind.Admits : LeafKind → Value → Prop where
  | bool (b : Bool) : Admits .bool (.bool b)
  | int (n : Int) : Admits .int (.int n)
  | uint (n : Int) : Admits .uint (.int n)
  | string (s : String) : Admits .string (.text s)
  | bytes (b : Bytes) : Admits .bytes (.bytes b)
  | bytesHex (b : Bytes) : Admits .bytesHex (.bytes b)
  | bytesAddress (b : Bytes) : Admits .bytesAddress (.bytes b)

/-- The integer of a value, if it is out of a range. -/
def outOf? : Option (Int × Int) → Value → Option Int
  | some range, .int n => if range.1 ≤ n ∧ n < range.2 then none else some n
  | _, _ => none

mutual

/-- The first integer of a value that is out of the range of its declared field, in the order of the schema, with the name
of the field. -/
def Library.outOfRange? (lib : Library) : Schema → Value → Option (String × Int)
  | .mk type fields, v => lib.firstOutOfRange? type v.members fields

/-- The first integer among the members for some fields of a message type. -/
def Library.firstOutOfRange? (lib : Library) (type : String) (members : List (String × Value)) :
    List Field → Option (String × Int)
  | [] => none
  | .leaf name _ :: r =>
    (((Value.member? name members).bind (outOf? (lib.rangeOf? type name))).map (name, ·)).or
      (lib.firstOutOfRange? type members r)
  | .message name schema :: r =>
    ((Value.member? name members).bind fun v => lib.outOfRange? schema v).or (lib.firstOutOfRange? type members r)
  | .unknown _ :: r => lib.firstOutOfRange? type members r

end

/-! ## 2. Names of operations -/

mutual

/-- No message inside a message has a field that hides the operation of putting it there. -/
def Schema.HidesNoPlacing : Schema → Prop
  | .mk _ fields => hideNoPlacing fields

/-- The messages in a list of fields have no such field. -/
def hideNoPlacing : List Field → Prop
  | [] => True
  | .message _ schema :: r =>
    (placingOperation ∉ schema.fields.map (·.name) ∧ schema.HidesNoPlacing) ∧ hideNoPlacing r
  | .leaf _ _ :: r => hideNoPlacing r
  | .unknown _ :: r => hideNoPlacing r

end

/-- No field of a schema hides an operation that is asked of its message. -/
structure Schema.HidesNothing (schema : Schema) : Prop where
  writing : writingOperation ∉ schema.fields.map (·.name)
  reading : readingOperation ∉ schema.fields.map (·.name)
  placing : schema.HidesNoPlacing

/-! ## 3. Plain fields -/

section

variable {slot : Slot} {x : Value} {owner : String}

theorem leafItem_int {range : Int × Int} (hsingle : slot.repeated = false)
    (hrange : integerRange? slot.type = some range) (n : Int) :
    leafItem owner slot (.int n) = integerItem owner slot range (.int n) := by
  unfold leafItem
  rw [hsingle]
  rcases type_of_integerRange? hrange with ⟨htype, rfl⟩ | ⟨htype, rfl⟩ | ⟨htype, rfl⟩ | ⟨htype, rfl⟩
  all_goals
    rw [htype]
    rfl

/-- A value of a kind is an integer, for which the type has a range, or is taken by the type as it is. -/
theorem LeafKind.Suits.takes_or_int {kind : LeafKind} {type : FieldType} (hkind : kind.Suits type)
    (hx : kind.Admits x) :
    (integerRange? type = none ∧ Takes type x) ∨ ∃ range n, integerRange? type = some range ∧ x = .int n := by
  cases hkind with
  | bool =>
    cases hx
    exact .inl ⟨rfl, .bool _⟩
  | int32 | int64 | uint32 | uint64 =>
    cases hx
    exact .inr ⟨_, _, rfl, rfl⟩
  | string =>
    cases hx
    exact .inl ⟨rfl, .string _⟩
  | bytes hint =>
    obtain ⟨b, rfl⟩ : ∃ b, x = .bytes b := by
      unfold LeafKind.ofHint at hx
      split at hx <;> cases hx <;> exact ⟨_, rfl⟩
    exact .inl ⟨rfl, .bytes b⟩

/-- An integer that is out of range is refused. -/
theorem leafItem_of_outOf? {kind : LeafKind} (hsingle : slot.repeated = false) (hkind : kind.Suits slot.type)
    (hx : kind.Admits x) {n : Int} (hout : outOf? (integerRange? slot.type) x = some n) :
    leafItem owner slot x = .error (.unfit slot.name (.outOfRange n)) := by
  rcases hkind.takes_or_int hx with ⟨hrange, -⟩ | ⟨range, k, hrange, rfl⟩
  · rw [hrange] at hout
    cases hout
  · rw [hrange, outOf?] at hout
    rw [leafItem_int hsingle hrange, integerItem]
    by_cases hk : range.1 ≤ k ∧ k < range.2
    · rw [if_pos hk] at hout
      cases hout
    · rw [if_neg hk] at hout ⊢
      cases hout
      rfl

/-- Any other value of the kind is taken. -/
theorem takes_of_outOf? {kind : LeafKind} (hkind : kind.Suits slot.type) (hx : kind.Admits x)
    (hin : outOf? (integerRange? slot.type) x = none) : Takes slot.type x := by
  rcases hkind.takes_or_int hx with ⟨-, htakes⟩ | ⟨range, k, hrange, rfl⟩
  · exact htakes
  · rw [hrange, outOf?] at hin
    by_cases hk : range.1 ≤ k ∧ k < range.2
    · exact .integer hrange hk
    · rw [if_neg hk] at hin
      cases hin

theorem textValue_eq_of_not_isTruthy {b : Bytes} (h : (textValue b).isTruthy = false) : textValue b = .text "" := by
  unfold textValue at h ⊢
  cases hs : Text.Utf8.toString? b with
  | some s =>
    rw [hs] at h
    simp only [Value.isTruthy, Bool.not_eq_false', String.isEmpty_iff] at h
    simp only [h]
  | none =>
    rw [hs] at h
    simp only [Value.isTruthy, Bool.not_eq_false', List.isEmpty_iff] at h
    rw [h] at hs
    cases hs

theorem defaultValue_of_integerRange? {range : Int × Int} (hrange : integerRange? slot.type = some range)
    (hdefault : (defaultValue slot).isTruthy = false) : defaultValue slot = .int 0 := by
  unfold defaultValue at hdefault ⊢
  rcases type_of_integerRange? hrange with ⟨htype, -⟩ | ⟨htype, -⟩ | ⟨htype, -⟩ | ⟨htype, -⟩
  all_goals
    rw [htype] at hdefault ⊢
    cases hd : slot.default with
    | number n =>
      rw [hd] at hdefault
      simp only [Value.isTruthy, bne_eq_false_iff_eq] at hdefault
      simp only [hdefault]
    | zero | flag | bytes => rfl

/-- There is one value of each type that counts as zero. -/
theorem defaultValue_eq_of_not_isTruthy (h : Takes slot.type x) (hx : x.isTruthy = false)
    (hdefault : (defaultValue slot).isTruthy = false) : defaultValue slot = x := by
  generalize htype : slot.type = type at h
  cases h with
  | bool b =>
    unfold defaultValue at hdefault ⊢
    rw [htype] at hdefault ⊢
    cases hd : slot.default with
    | flag c =>
      rw [hd] at hdefault
      simp only [Value.isTruthy] at hx hdefault
      simp only [hx, hdefault]
    | zero | number | bytes =>
      simp only [Value.isTruthy] at hx
      simp only [hx]
  | @integer _ range n hrange _ =>
    rw [defaultValue_of_integerRange? (htype ▸ hrange) hdefault]
    simp only [Value.isTruthy, bne_eq_false_iff_eq] at hx
    rw [hx]
  | string s =>
    simp only [Value.isTruthy, Bool.not_eq_false', String.isEmpty_iff] at hx
    unfold defaultValue at hdefault ⊢
    rw [htype] at hdefault ⊢
    cases hd : slot.default with
    | bytes b =>
      rw [hd] at hdefault
      simp only [hx]
      exact textValue_eq_of_not_isTruthy hdefault
    | zero | number | flag => simp only [hx]
  | bytes b =>
    simp only [Value.isTruthy, Bool.not_eq_false', List.isEmpty_iff] at hx
    unfold defaultValue at hdefault ⊢
    rw [htype] at hdefault ⊢
    cases hd : slot.default with
    | bytes c =>
      rw [hd] at hdefault
      simp only [Value.isTruthy, Bool.not_eq_false', List.isEmpty_iff] at hdefault
      simp only [hx, hdefault]
    | zero | number | flag => simp only [hx]

/-- A slot that gives zero keeps every value of its type. -/
theorem Descriptor.Slot.GivesZero.keeps (hzero : slot.GivesZero) (hsingle : slot.repeated = false)
    (htakes : Takes slot.type x) : slot.Keeps x := by
  refine ⟨hsingle, htakes, ?_⟩
  rcases hzero with hpresence | ⟨hrequired, hdefault⟩
  · exact .inl hpresence
  · by_cases hx : x.isTruthy = true
    · exact .inr (.inl hx)
    · exact .inr (.inr ⟨hrequired, defaultValue_eq_of_not_isTruthy htakes (Bool.eq_false_iff.mpr hx) hdefault⟩)

theorem LeafKind.Admits.same {kind : LeafKind} (h : kind.Admits x) : x.Same x := by
  cases h with
  | bool b => exact .bool b
  | int n | uint n => exact .int n
  | string s => exact .text s
  | bytes b | bytesHex b | bytesAddress b => exact .bytes b

end

/-! ## 4. Messages -/

theorem memberOf_of_member? {name : String} {members : List (String × Value)} {x : Value}
    (h : Value.member? name members = some x) : memberOf name (.message members) = .ok x := by
  simp only [memberOf, Value.lookUp, h]

section

variable {pool : Pool} {linked : Linked} {v : Value} {f : Field} {fields : List Field} {done : List Part}

theorem fieldParts_cons_of_error {fault : EncodeFault} (h : fieldPart pool linked v f = .error fault) :
    fieldParts pool linked v (f :: fields) done = .error fault := by
  rw [fieldParts, h]

theorem fieldParts_cons_of_ok {o : Option Part} (hdone : IsNew linked (f :: fields) done)
    (h : fieldPart pool linked v f = .ok o) :
    fieldParts pool linked v (f :: fields) done = fieldParts pool linked v fields (done ++ o.toList) := by
  rw [fieldParts, h]
  cases o with
  | none => rw [Option.toList_none, List.append_nil]
  | some p => rw [Option.toList_some, ← hdone.putPart h]

/-- What is put after a field follows what the field puts there. -/
theorem fieldParts_cons_of_eq_ok {parts : List Part} (h : fieldParts pool linked v (f :: fields) done = .ok parts) :
    ∃ o, fieldPart pool linked v f = .ok o ∧
      fieldParts pool linked v fields (o.elim done fun p => putPart p done) = .ok parts := by
  rw [fieldParts] at h
  cases hpart : fieldPart pool linked v f with
  | error fault =>
    rw [hpart] at h
    cases h
  | ok o =>
    rw [hpart] at h
    cases o with
    | none => exact ⟨none, rfl, h⟩
    | some p => exact ⟨some p, rfl, h⟩

end

/-- A linked type has a slot of a name just when the name is among those of the fields. -/
theorem slot?_eq_none_of_names {linked : Linked} {fields : List Field}
    (hnames : linked.slots.map (·.name) = fields.map (·.name)) {name : String} (hname : name ∉ fields.map (·.name)) :
    linked.slot? name = none := by
  rw [← hnames] at hname
  apply List.find?_eq_none.mpr
  intro slot hslot hsame
  exact hname (beq_iff_eq.mp hsame ▸ List.mem_map_of_mem hslot)

theorem not_mem_of_slot?_eq_none {linked : Linked} {fields : List Field}
    (hnames : linked.slots.map (·.name) = fields.map (·.name)) {name : String} (hnone : linked.slot? name = none) :
    name ∉ fields.map (·.name) := by
  rw [← hnames]
  intro hmem
  obtain ⟨slot, hslot, hsame⟩ := List.mem_map.mp hmem
  exact List.find?_eq_none.mp hnone slot hslot (beq_iff_eq.mpr hsame)

section

variable {lib : Library} {type : String} {linked : Linked} {fields : List Field} {members : List (String × Value)}

theorem firstOutOfRange?_leaf {name : String} {kind : LeafKind} {x : Value}
    (hfind : Value.member? name members = some x) :
    lib.firstOutOfRange? type members (.leaf name kind :: fields) =
      ((outOf? (lib.rangeOf? type name) x).map (name, ·)).or (lib.firstOutOfRange? type members fields) := by
  rw [Library.firstOutOfRange?, hfind, Option.bind_some]

theorem firstOutOfRange?_message {name target : String} {inner : List Field} {xs : List (String × Value)}
    (hfind : Value.member? name members = some (.message xs)) :
    lib.firstOutOfRange? type members (.message name (.mk target inner) :: fields) =
      (lib.firstOutOfRange? target xs inner).or (lib.firstOutOfRange? type members fields) := by
  rw [Library.firstOutOfRange?, hfind, Option.bind_some, Library.outOfRange?, Value.members]

/-- What becomes of some members that are written after other parts: the first integer that is out of range is named. Where
there is none, the parts are those of the members in the order of the schema, and the slots keep these. -/
structure FieldsSettle (lib : Library) (type : String) (linked : Linked) (fields : List Field)
    (members : List (String × Value)) (done : List Part) : Prop where
  refused : ∀ field n, lib.firstOutOfRange? type members fields = some (field, n) →
    fieldParts lib.pool linked (.message members) fields done = .error (.unfit field (.outOfRange n))
  kept : lib.firstOutOfRange? type members fields = none →
    ∃ xs outs, FieldsWrite lib.pool linked fields xs outs ∧
      fieldParts lib.pool linked (.message members) fields done = .ok (done ++ written outs) ∧
      FieldsCarry lib.pool linked fields xs ∧ xs.length = fields.length ∧ MembersSame xs members

theorem FieldsSettle.refuse {f : Field} {field : String} {n : Int} {done : List Part}
    (hfirst : lib.firstOutOfRange? type members (f :: fields) = some (field, n))
    (hpart : fieldPart lib.pool linked (.message members) f = .error (.unfit field (.outOfRange n))) :
    FieldsSettle lib type linked (f :: fields) members done := by
  constructor
  · intro field' n' h
    rw [hfirst] at h
    cases h
    exact fieldParts_cons_of_error hpart
  · intro h
    rw [hfirst] at h
    cases h

/-- A field that is written leaves it to the later ones what becomes of the members. -/
theorem FieldsSettle.cons {f : Field} {x y : Value} {slot : Slot} {o : Option Part} {done : List Part}
    (hfirst : lib.firstOutOfRange? type members (f :: fields) = lib.firstOutOfRange? type members fields)
    (hdone : IsNew linked (f :: fields) done) (hpart : fieldPart lib.pool linked (.message members) f = .ok o)
    (hfind : Value.member? f.name members = some y) (hsame : x.Same y)
    (hwrite : ∀ xs outs, FieldsWrite lib.pool linked fields xs outs →
      FieldsWrite lib.pool linked (f :: fields) ((f.name, x) :: xs) ((slot, o) :: outs))
    (hcarry : ∀ xs, FieldsCarry lib.pool linked fields xs → FieldsCarry lib.pool linked (f :: fields) ((f.name, x) :: xs))
    (h : FieldsSettle lib type linked fields members (done ++ o.toList)) :
    FieldsSettle lib type linked (f :: fields) members done := by
  constructor
  · intro field n hrest
    rw [hfirst] at hrest
    rw [fieldParts_cons_of_ok hdone hpart]
    exact h.refused field n hrest
  · intro hrest
    rw [hfirst] at hrest
    obtain ⟨xs, outs, hwrites, hok, hcarries, hlength, hsames⟩ := h.kept hrest
    refine ⟨(f.name, x) :: xs, (slot, o) :: outs, hwrite xs outs hwrites, ?_, hcarry xs hcarries, ?_, ?_⟩
    · rw [fieldParts_cons_of_ok hdone hpart, hok, written_cons, List.append_assoc]
    · rw [List.length_cons, List.length_cons, hlength]
    · exact .cons hfind hsame hsames

/-- A plain field is refused if its integer is out of range, and is otherwise written. -/
theorem FieldsSettle.leaf {name : String} {kind : LeafKind} {slot : Slot} {x : Value} {done : List Part}
    (hslot : linked.slot? name = some slot) (hsingle : slot.repeated = false) (hkind : kind.Suits slot.type)
    (hrange : lib.rangeOf? type name = integerRange? slot.type) (hzero : slot.GivesZero)
    (hfind : Value.member? name members = some x) (hx : kind.Admits x)
    (hdone : IsNew linked (.leaf name kind :: fields) done)
    (hrest : ∀ o, fieldPart lib.pool linked (.message members) (.leaf name kind) = .ok o →
      FieldsSettle lib type linked fields members (done ++ o.toList)) :
    FieldsSettle lib type linked (.leaf name kind :: fields) members done := by
  have hmember := memberOf_of_member? hfind
  have hfirst := @firstOutOfRange?_leaf lib type fields members name kind x hfind
  rw [hrange] at hfirst
  cases hout : outOf? (integerRange? slot.type) x with
  | some n =>
    rw [hout] at hfirst
    apply FieldsSettle.refuse hfirst
    rw [fieldPart, hmember]
    simp only [hslot, leafItem_of_outOf? hsingle hkind hx hout, Except.map, (Descriptor.Linked.mem_of_slot? hslot).2]
  | none =>
    rw [hout] at hfirst
    have hkeeps := hzero.keeps hsingle (takes_of_outOf? hkind hx hout)
    obtain ⟨o, hitem⟩ := @exists_leafItem linked.name _ _ hsingle hkeeps.takes
    have hpart := (@fieldPart_leaf_eq_ok_iff lib.pool linked (.message members) x name kind _ hmember).mpr
      ⟨slot, o, hslot, hitem, rfl⟩
    exact .cons hfirst hdone hpart hfind hx.same (fun xs outs hwrite => .leaf hslot hitem hwrite)
      (fun xs hcarry => .leaf hslot hkeeps hcarry) (hrest _ hpart)

/-- A nested message is refused if one of its own integers is out of range, and is otherwise written. -/
theorem FieldsSettle.message {name target : String} {slot : Slot} {next : Linked} {inner : List Field}
    {xs : List (String × Value)} {done : List Part} (hslot : linked.slot? name = some slot)
    (hsingle : slot.repeated = false) (htype : slot.type.isMessage = true)
    (hfindNext : lib.pool.find? slot.target = some next)
    (hnextNames : next.slots.map (·.name) = inner.map (·.name)) (hplacing : placingOperation ∉ inner.map (·.name))
    (hfind : Value.member? name members = some (.message xs)) (hlength : xs.length = inner.length)
    (hinner : FieldsSettle lib target next inner xs [])
    (hdone : IsNew linked (.message name (.mk target inner) :: fields) done)
    (hrest : ∀ o, fieldPart lib.pool linked (.message members) (.message name (.mk target inner)) = .ok o →
      FieldsSettle lib type linked fields members (done ++ o.toList)) :
    FieldsSettle lib type linked (.message name (.mk target inner) :: fields) members done := by
  have hmember := memberOf_of_member? hfind
  have hplacing := slot?_eq_none_of_names hnextNames hplacing
  have hfirst := @firstOutOfRange?_message lib type fields members name target inner xs hfind
  cases hout : lib.firstOutOfRange? target xs inner with
  | some p =>
    obtain ⟨field, n⟩ := p
    rw [hout] at hfirst
    apply FieldsSettle.refuse hfirst
    rw [fieldPart, hmember]
    simp only [hslot, hsingle, htype, hfindNext, hplacing, Schema.parts, hinner.refused field n hout]
    rfl
  | none =>
    rw [hout] at hfirst
    obtain ⟨ys, outs, hwriteInner, hok, hcarryInner, hlengthYs, hsameInner⟩ := hinner.kept hout
    rw [List.nil_append] at hok
    have hpart := (@fieldPart_message_eq_ok_iff lib.pool linked (.message members) _ name target inner _ hmember).mpr
      ⟨slot, next, written outs, hslot, hsingle, htype, hfindNext, hplacing, hok, rfl⟩
    have hcompletes : Completes next inner := by
      intro s hs _
      rw [← hnextNames]
      exact List.mem_map_of_mem hs
    exact .cons hfirst hdone hpart hfind (.message (hlengthYs.trans hlength.symm) hsameInner)
      (fun ms outs hwrite => .message hslot hsingle htype hfindNext hplacing hwriteInner hwrite)
      (fun ms hcarry => .message hslot hsingle htype hfindNext hplacing hcompletes hcarryInner hcarry) (hrest _ hpart)

/-- Writing fields stops at the first integer that is out of range. -/
theorem Library.FieldsLinked.settle (h : FieldsLinked lib type linked fields) (hv : FieldsAre LeafKind.Admits fields members)
    (hnames : (fields.map (·.name)).Nodup) (hdistinct : haveDistinctNames fields) (hplaces : hideNoPlacing fields)
    (hrivals : ∀ last, Visits lib.pool linked fields last → last.HasNoRivals) {done : List Part}
    (hdone : IsNew linked fields done) : FieldsSettle lib type linked fields members done := by
  -- As in `FieldsHold.fieldParts_eq_ok_iff` every part is put at the end, since no later field is in its oneof.
  induction h generalizing members done with
  | nil =>
    constructor
    · intro field n hfirst
      rw [Library.firstOutOfRange?] at hfirst
      cases hfirst
    · intro _
      refine ⟨[], [], .nil, ?_, .nil, rfl, .nil⟩
      rw [fieldParts, written, List.filterMap_nil, List.append_nil]
  | @leaf type name kind linked slot fields hslot hsingle hkind hrange hzero _ ih =>
    cases hv with
    | leaf hfind hx hv =>
      rw [List.map_cons, List.nodup_cons] at hnames
      apply FieldsSettle.leaf hslot hsingle hkind hrange hzero hfind hx hdone
      intro o hpart
      exact ih hv hnames.2 hdistinct hplaces (fun last hl => hrivals last hl.cons)
        (hdone.next (hrivals linked .here) hnames.1 hpart)
  | @message type name target linked next slot inner fields hslot hsingle htype hfindNext hnextNames _ _ ihx ih =>
    cases hv with
    | message hfind hlength hxs hv =>
      rw [List.map_cons, List.nodup_cons] at hnames
      have hinner := ihx hxs hdistinct.1.1 hdistinct.1.2 hplaces.1.2
        (fun last hl => hrivals last (.inside List.mem_cons_self hslot hfindNext hl)) (isNew_nil next inner)
      apply FieldsSettle.message hslot hsingle htype hfindNext hnextNames hplaces.1.1 hfind hlength hinner hdone
      intro o hpart
      exact ih hv hnames.2 hdistinct.2 hplaces.2 (fun last hl => hrivals last hl.cons)
        (hdone.next (hrivals linked .here) hnames.1 hpart)

/-- Where fields are written, no message in them has a field that hides the operation of putting it there. -/
theorem Library.FieldsLinked.hidesNoPlacing (h : FieldsLinked lib type linked fields)
    (hv : FieldsAre LeafKind.Admits fields members) {done parts : List Part}
    (hok : fieldParts lib.pool linked (.message members) fields done = .ok parts) : hideNoPlacing fields := by
  induction h generalizing members done parts with
  | nil => trivial
  | leaf _ _ _ _ _ _ ih =>
    cases hv with
    | leaf _ _ hv =>
      obtain ⟨o, -, hrest⟩ := fieldParts_cons_of_eq_ok hok
      exact ih hv hrest
  | message hslot _ _ hfindNext hnextNames _ _ ihx ih =>
    cases hv with
    | message hfind _ hxs hv =>
      obtain ⟨o, hpart, hrest⟩ := fieldParts_cons_of_eq_ok hok
      obtain ⟨slot', next', inner, hslot', -, -, hfindNext', hplacing, hinner, -⟩ :=
        (fieldPart_message_eq_ok_iff (memberOf_of_member? hfind)).mp hpart
      rw [hslot, Option.some.injEq] at hslot'
      rw [← hslot', hfindNext, Option.some.injEq] at hfindNext'
      rw [← hfindNext'] at hplacing hinner
      exact ⟨⟨not_mem_of_slot?_eq_none hnextNames hplacing, ihx hxs hinner⟩, ih hv hrest⟩

end

/-! ## 5. Libraries -/

namespace Library

variable {lib : Library} {name : String} {schema : Schema} {v : Value}

/-- The bytes of a value are not too many. -/
def IsShort (lib : Library) (schema : Schema) (v : Value) : Prop :=
  ∀ parts, schema.parts lib.pool (bareName schema.name) v = .ok parts → (joinParts parts).length ≤ maxMessageSize

/-- The schema of a faithful type is that of a linked one, unless it stands for nothing. -/
theorem exists_linked_of_schema (hlib : lib.IsLoaded) (hschema : lib.schema name = .ok schema)
    (hfaithful : ∀ type, lib.Meets (bareName name) type → lib.IsFaithful type) :
    schema = .empty ∨ (schema.name.isEmpty = false ∧ ∃ linked, lib.linked? schema.name = some linked ∧
      linked.slots.map (·.name) = schema.fields.map (·.name) ∧ FieldsLinked lib schema.name linked schema.fields) := by
  have hhas := schema_eq_ok_iff.mp hschema
  unfold HasSchema at hhas
  by_cases hempty : name.isEmpty = true
  · rw [if_pos hempty] at hhas
    exact .inl hhas
  · rw [if_neg hempty] at hhas
    obtain ⟨m, fields, hm, hfields, rfl⟩ := hhas
    obtain ⟨hne, _, _, _, _, linked, _, hfind, hof⟩ := hlib.exists_linked (hfaithful _ .here).own hm
    refine .inr ⟨?_, linked, ?_, ?_, ?_⟩
    · show (bareName name).isEmpty = false
      rw [Bool.eq_false_iff]
      exact fun h => hne (String.isEmpty_iff.mp h)
    · show lib.pool.find? (bareName (bareName name)) = some linked
      rw [bareName_bareName]
      exact hfind
    · show linked.slots.map (·.name) = fields.map (·.name)
      rw [hof.names, hfields.names]
    · exact hfields.linked hlib hm hfind hof (fun f hf => hf) hfaithful

/-- The fields of a linked type have distinct names, as its slots have. -/
theorem hasDistinctNames_of_linked {linked : Linked} (hpool : lib.pool.IsSound)
    (hfind : lib.linked? schema.name = some linked)
    (hnames : linked.slots.map (·.name) = schema.fields.map (·.name))
    (hfields : FieldsLinked lib schema.name linked schema.fields) : schema.HasDistinctNames := by
  refine Schema.hasDistinctNames_iff.mpr ⟨?_, hfields.distinctNames hpool⟩
  rw [← hnames]
  exact (hpool.of_find? hfind).names

/-- A message that is written and read back hides nothing and is short. -/
theorem hidesNothing_of_encode {linked : Linked} {members : List (String × Value)} {b : Bytes} {w : Value}
    (hname : schema.name.isEmpty = false) (hfind : lib.linked? schema.name = some linked)
    (hnames : linked.slots.map (·.name) = schema.fields.map (·.name))
    (hfields : FieldsLinked lib schema.name linked schema.fields)
    (hv : FieldsAre LeafKind.Admits schema.fields members) (hencode : lib.encode schema (.message members) = .ok b)
    (hdecode : lib.decode schema b = .ok w) : schema.HidesNothing ∧ lib.IsShort schema (.message members) := by
  obtain ⟨linked', parts, hfind', hparts, hwriting, -, -, hsize, -⟩ := (encode_eq_ok_iff hname).mp hencode
  rw [hfind, Option.some.injEq] at hfind'
  rw [← hfind'] at hwriting
  have hfound : lib.pool.find? (bareName schema.name) = some linked := hfind
  have hreading : linked.slot? readingOperation = none := by
    unfold decode at hdecode
    rw [if_neg (by rw [hname]; exact Bool.false_ne_true)] at hdecode
    simp only [hfound] at hdecode
    cases hslot : linked.slot? readingOperation with
    | none => rfl
    | some slot =>
      rw [hslot] at hdecode
      cases hdecode
  constructor
  · constructor
    · exact not_mem_of_slot?_eq_none hnames hwriting
    · exact not_mem_of_slot?_eq_none hnames hreading
    · obtain ⟨type, fields⟩ := schema
      rw [Schema.parts, hfound] at hparts
      exact hfields.hidesNoPlacing hv hparts
  · intro parts' hparts'
    rw [hparts] at hparts'
    cases hparts'
    exact hsize

section

variable {linked : Linked} {members : List (String × Value)}

theorem parts_of_linked? (hfind : lib.linked? schema.name = some linked) (v : Value) :
    schema.parts lib.pool (bareName schema.name) v = fieldParts lib.pool linked v schema.fields [] := by
  have hfound : lib.pool.find? (bareName schema.name) = some linked := hfind
  cases schema
  rw [Schema.parts, hfound]
  rfl

/-- A value is refused with the name of the first integer that is out of range. -/
theorem encode_of_settle (hname : schema.name.isEmpty = false) (hfind : lib.linked? schema.name = some linked)
    (hsettle : FieldsSettle lib schema.name linked schema.fields members []) {field : String} {n : Int}
    (hout : lib.outOfRange? schema (.message members) = some (field, n)) :
    lib.encode schema (.message members) = .error (.unfit field (.outOfRange n)) := by
  have hfound : lib.pool.find? (bareName schema.name) = some linked := hfind
  have hfirst : lib.firstOutOfRange? schema.name members schema.fields = some (field, n) := by
    cases schema
    exact hout
  have hrefused := hsettle.refused field n hfirst
  rw [← parts_of_linked? hfind] at hrefused
  unfold encode
  rw [if_neg (by rw [hname]; exact Bool.false_ne_true)]
  simp only [hfound, hrefused]

/-- A value without such an integer is written and read back. -/
theorem roundTrip_of_settle (hpool : lib.pool.IsSound) (hname : schema.name.isEmpty = false)
    (hfind : lib.linked? schema.name = some linked)
    (hnames : linked.slots.map (·.name) = schema.fields.map (·.name)) (hdistinct : schema.HasDistinctNames)
    (hrivals : lib.HasNoRivals schema) (hdepth : schema.depth < Wire.maxDepth)
    (hlength : members.length = schema.fields.length)
    (hsettle : FieldsSettle lib schema.name linked schema.fields members [])
    (hin : lib.outOfRange? schema (.message members) = none) (hhides : schema.HidesNothing)
    (hshort : lib.IsShort schema (.message members)) :
    ∃ b w, lib.encode schema (.message members) = .ok b ∧ lib.decode schema b = .ok w ∧ w.Same (.message members) := by
  have hfirst : lib.firstOutOfRange? schema.name members schema.fields = none := by
    cases schema
    exact hin
  obtain ⟨xs, outs, hwrite, hok, hcarry, hxs, hsame⟩ := hsettle.kept hfirst
  rw [List.nil_append, ← parts_of_linked? hfind] at hok
  have hsize := hshort _ hok
  have hreadable : (joinParts (written outs)).length < maxReadable :=
    Nat.lt_of_le_of_lt hsize (show maxMessageSize < maxReadable by decide)
  have hshallow := hwrite.partsDepth_lt hdepth
  have hcompletes : Completes linked schema.fields := by
    intro s hs _
    rw [← hnames]
    exact List.mem_map_of_mem hs
  obtain ⟨hvalues, hlacking⟩ := (hwrite.fieldValues_eq_iff hpool hfind hdistinct hrivals
    (Nat.le_of_lt hshallow) hreadable).mpr ⟨hcompletes, hcarry⟩
  refine ⟨joinParts (written outs), .message xs, ?_, ?_, ?_⟩
  · apply (encode_eq_ok_iff hname).mpr
    exact ⟨linked, written outs, hfind, hok, slot?_eq_none_of_names hnames hhides.writing, hlacking, hshallow, hsize, rfl⟩
  · apply (decode_written_iff hpool hname hfind hwrite (Nat.le_of_lt hshallow) hreadable).mpr
    exact ⟨slot?_eq_none_of_names hnames hhides.reading, hvalues⟩
  · exact .message (hxs.trans hlength.symm) hsame

end

/-- The message of the schema without a name has no bytes. -/
theorem isShort_empty : lib.IsShort .empty (.message []) := by
  intro parts hparts
  rw [Schema.empty, Schema.parts] at hparts
  cases hlinked : lib.pool.find? (bareName (Schema.mk "" []).name) with
  | none =>
    rw [hlinked] at hparts
    cases hparts
  | some linked =>
    simp only [hlinked, fieldParts] at hparts
    cases hparts
    simp [joinParts, sortedItems, sortedParts]

/-- What becomes of a value of a schema. Where no integer is out of the range of its declared field, the value is written and
read back, its members in any order, just when no field hides an operation and the bytes are not too many. Otherwise the
value is refused, and what is named is the first integer out of range in the order of the schema. -/
theorem wire_roundTrip_iff (hlib : lib.IsLoaded) (hschema : lib.schema name = .ok schema)
    (hrivals : lib.HasNoRivals schema) (hdepth : schema.depth < Wire.maxDepth)
    (hfaithful : ∀ type, lib.Meets (bareName name) type → lib.IsFaithful type) (hv : schema.IsOf LeafKind.Admits v) :
    (lib.outOfRange? schema v = none →
      ((∃ b w, lib.encode schema v = .ok b ∧ lib.decode schema b = .ok w ∧ w.Same v) ↔
        schema.HidesNothing ∧ lib.IsShort schema v)) ∧
    (∀ field n, lib.outOfRange? schema v = some (field, n) → schema.HidesNoPlacing →
      lib.encode schema v = .error (.unfit field (.outOfRange n))) := by
  obtain ⟨members, rfl, hlength, hmembers⟩ := hv
  rcases exists_linked_of_schema hlib hschema hfaithful with rfl | ⟨hname, linked, hfind, hnames, hfields⟩
  · -- The schema without a name has no fields, and its message no members.
    have hnil : members = [] := List.length_eq_zero_iff.mp hlength
    rw [hnil]
    obtain ⟨hencode, hdecode⟩ := @decode_encode_nothing lib .empty [] rfl
    have hhides : Schema.empty.HidesNothing := ⟨List.not_mem_nil, List.not_mem_nil, trivial⟩
    constructor
    · intro _
      exact ⟨fun _ => ⟨hhides, isShort_empty⟩, fun _ => ⟨_, _, hencode, hdecode, .message rfl .nil⟩⟩
    · intro field n h
      cases h
  · have hpool := hlib.isSound
    have hdistinct := hasDistinctNames_of_linked hpool hfind hnames hfields
    obtain ⟨hnodup, hinner⟩ := Schema.hasDistinctNames_iff.mp hdistinct
    have hempty : IsNew linked schema.fields [] := by
      intro f _ slot _ _ q hq
      cases hq
    have hsettle : schema.HidesNoPlacing → FieldsSettle lib schema.name linked schema.fields members [] := by
      intro hplaces
      apply hfields.settle hmembers hnodup hinner _ (hrivals linked hfind) hempty
      cases schema
      exact hplaces
    constructor
    · intro hin
      constructor
      · rintro ⟨b, w, hencode, hdecode, -⟩
        exact hidesNothing_of_encode hname hfind hnames hfields hmembers hencode hdecode
      · rintro ⟨hhides, hshort⟩
        exact roundTrip_of_settle hpool hname hfind hnames hdistinct hrivals hdepth hlength (hsettle hhides.placing) hin
          hhides hshort
    · intro field n hout hplaces
      exact encode_of_settle hname hfind (hsettle hplaces) hout

/-! ## 6. One number -/

section

variable {type field : String} {b : Bytes}

theorem member?_singleton (field : String) (v : Value) : Value.member? field [(field, v)] = some v :=
  @member?_of_mem [(field, v)] (List.nodup_singleton field) (field, v) List.mem_cons_self

/-- The types of a library of one number are faithful. -/
theorem isFaithful_number (h : isNumberFile type field b = true) (last : String) :
    (ofPlain (Descriptor.File.ofBytes b)).IsFaithful last := by
  obtain ⟨hload, -⟩ := of_isNumberFile h
  have hlib := isLoaded_ofBytes hload
  unfold isNumberFile at h
  simp only [Bool.and_eq_true, bne_iff_ne, beq_iff_eq] at h
  obtain ⟨⟨⟨⟨⟨⟨⟨-, hname⟩, -⟩, -⟩, -⟩, -⟩, -⟩, hmessages⟩ := h
  have hfields : ∀ x ∈ (Descriptor.File.ofBytes b).featuredMessages,
      x.2.2.fields = [Descriptor.Standard.one .uint64 1 field] := by
    intro x hx
    have hmem := List.mem_map_of_mem (f := fun m => (m.1, m.2.1, m.2.2.fields)) hx
    rw [hmessages, List.mem_singleton, Prod.mk.injEq, Prod.mk.injEq] at hmem
    exact hmem.2.2
  apply hlib.isFaithful
  · intro g hg _
    rw [List.mem_singleton.mp hg]
    exact hname
  · intro f hf x hx _ y hy g hg _
    rw [List.mem_singleton.mp hf] at hy
    rw [hfields y hy] at hg
    rw [List.mem_singleton.mp hg]
    exact ⟨.inr rfl, nofun⟩
  · intro m f name hm hf hgiven
    obtain ⟨file, hfile, features, hmem⟩ := hlib.exists_file hm
    rw [List.mem_singleton.mp hfile] at hmem
    have honly : m.fields = [Descriptor.Standard.one .uint64 1 field] := hfields _ hmem
    rw [honly] at hf
    rw [List.mem_singleton.mp hf] at hgiven
    cases hgiven

/-- A number is out of range in such a library when it is no unsigned number of sixty-four bits. -/
theorem outOfRange?_number (h : isNumberFile type field b = true) (n : Int) :
    (ofPlain (Descriptor.File.ofBytes b)).outOfRange? (numberSchema type field) (.message [(field, .int n)]) =
      if 0 ≤ n ∧ n < 0x10000000000000000 then none else some (field, n) := by
  obtain ⟨hload, hschema, linked, hlinked, hslots⟩ := of_isNumberFile h
  have hrange : (ofPlain (Descriptor.File.ofBytes b)).rangeOf? type field = some (0, 0x10000000000000000) := by
    rcases exists_linked_of_schema (isLoaded_ofBytes hload) hschema (fun last _ => isFaithful_number h last) with
      hempty | ⟨-, linked', hfind, -, hfields⟩
    · cases hempty
    · have hsame : (ofPlain (Descriptor.File.ofBytes b)).linked? type = some linked' := hfind
      rw [hlinked, Option.some.injEq] at hsame
      rw [← hsame] at hfields
      cases hfields with
      | leaf hslot _ _ hrange _ _ =>
        rw [slot?_number hslots, if_pos rfl, Option.some.injEq] at hslot
        rw [← hslot] at hrange
        exact hrange
  rw [numberSchema, outOfRange?, Value.members, firstOutOfRange?_leaf (member?_singleton field _), hrange, outOf?,
    firstOutOfRange?]
  by_cases hn : 0 ≤ n ∧ n < 0x10000000000000000
  · rw [if_pos hn, if_pos hn]
    rfl
  · rw [if_neg hn, if_neg hn]
    rfl

theorem isOf_number (type field : String) (n : Int) :
    (numberSchema type field).IsOf LeafKind.Admits (.message [(field, .int n)]) := by
  exact ⟨_, rfl, rfl, .leaf (member?_singleton field _) (.uint n) .nil⟩

end

theorem wire_roundTrip_plain :
    isNumberFile "A" "x" plainFile = true ∧ ofBytes plainFile = .ok (ofPlain (Descriptor.File.ofBytes plainFile)) ∧
      (∃ b w, (ofPlain (Descriptor.File.ofBytes plainFile)).encode (numberSchema "A" "x") (.message [("x", .int 5)]) = .ok b ∧
        (ofPlain (Descriptor.File.ofBytes plainFile)).decode (numberSchema "A" "x") b = .ok w ∧
        w.Same (.message [("x", .int 5)])) ∧
      (ofPlain (Descriptor.File.ofBytes plainFile)).encode (numberSchema "A" "x") (.message [("x", .int (-1))]) =
        .error (.unfit "x" (.outOfRange (-1))) := by
  have hfile : isNumberFile "A" "x" plainFile = true := isNumberFile_files.1
  obtain ⟨hload, hschema, -⟩ := of_isNumberFile hfile
  have hdepth : (numberSchema "A" "x").depth < Wire.maxDepth := by decide
  have hplacing : (numberSchema "A" "x").HidesNoPlacing := trivial
  have hhides : (numberSchema "A" "x").HidesNothing := ⟨by decide, by decide, hplacing⟩
  have husual : ∀ f ∈ (ofPlain (Descriptor.File.ofBytes plainFile)).files, f.isUsual = true := by
    intro f hf
    rw [List.mem_singleton.mp hf]
    decide +kernel
  have hfaithful := (isLoaded_ofBytes hload).isFaithful_of_isUsual husual
  have houtcome := fun n => wire_roundTrip_iff (isLoaded_ofBytes hload) hschema (hasNoRivals_number hfile) hdepth
    (fun last _ => hfaithful last) (isOf_number "A" "x" n)
  have hin := outOfRange?_number hfile 5
  have hout := outOfRange?_number hfile (-1)
  rw [if_pos (by decide)] at hin
  rw [if_neg (by decide)] at hout
  have hshort := length_parts_number_le hfile (show (0 : Int) ≤ 5 by decide) (by decide)
  exact ⟨hfile, hload, ((houtcome 5).1 hin).mpr ⟨hhides, hshort⟩, (houtcome (-1)).2 "x" (-1) hout hplacing⟩

/-- A number in the range of its field is not written when the field hides the operation that writes. -/
theorem not_written_of_hidden_operation :
    ofBytes hidingFile = .ok (ofPlain (Descriptor.File.ofBytes hidingFile)) ∧
      (ofPlain (Descriptor.File.ofBytes hidingFile)).schema "A" = .ok (numberSchema "A" writingOperation) ∧
      (ofPlain (Descriptor.File.ofBytes hidingFile)).HasNoRivals (numberSchema "A" writingOperation) ∧
      (numberSchema "A" writingOperation).depth < Wire.maxDepth ∧
      (∀ type, (ofPlain (Descriptor.File.ofBytes hidingFile)).Meets "A" type →
        (ofPlain (Descriptor.File.ofBytes hidingFile)).IsFaithful type) ∧
      (numberSchema "A" writingOperation).IsOf LeafKind.Admits (.message [(writingOperation, .int 5)]) ∧
      (ofPlain (Descriptor.File.ofBytes hidingFile)).outOfRange? (numberSchema "A" writingOperation)
        (.message [(writingOperation, .int 5)]) = none ∧
      ∀ b, (ofPlain (Descriptor.File.ofBytes hidingFile)).encode (numberSchema "A" writingOperation)
        (.message [(writingOperation, .int 5)]) ≠ .ok b := by
  have hfile : isNumberFile "A" writingOperation hidingFile = true := isNumberFile_files.2
  obtain ⟨hload, hschema, linked, hlinked, hslots⟩ := of_isNumberFile hfile
  have hin := outOfRange?_number hfile 5
  rw [if_pos (by decide)] at hin
  refine ⟨hload, hschema, hasNoRivals_number hfile, by decide, fun last _ => isFaithful_number hfile last,
    isOf_number _ _ 5, hin, ?_⟩
  intro b hencode
  obtain ⟨other, parts, hfind, -, hwriting, -⟩ :=
    (@encode_eq_ok_iff _ (numberSchema "A" writingOperation) rfl _ b).mp hencode
  have hsame : (ofPlain (Descriptor.File.ofBytes hidingFile)).linked? "A" = some other := hfind
  rw [hlinked, Option.some.injEq] at hsame
  rw [← hsame, slot?_number hslots, if_pos rfl] at hwriting
  cases hwriting

end Library

end ContractShell
