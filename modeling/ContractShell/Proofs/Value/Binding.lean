import ContractShell.Proofs.Value.Typing

/-!
Values that are read back from their texts.

All plain fields of a value share one map of texts, whatever messages they stand in. So fields of one name overwrite each
other there, and a value is read back when such fields have one kind and one value. The members of a message may stand in
any order; the value that is read back has them in the order of the schema.

## Main statements

* `FieldsAre.unbind`: the map of a value's texts has the text of each plain field.
* `FieldsAre.bind`: a map that has these texts gives the members back.
* `Schema.bind_unbind`: a value is read back from the map of its texts.
-/

namespace ContractShell

open Command (Values)

/-! ## 1. Maps of texts -/

theorem mem_of_mem_set {name value : String} {vs : Values} {p : String × String} (h : p ∈ Values.set name value vs) :
    p = (name, value) ∨ p ∈ vs := by
  induction vs with
  | nil => exact .inl (List.mem_singleton.mp h)
  | cons q vs ih =>
    obtain ⟨n, v⟩ := q
    rw [Values.set] at h
    by_cases hn : n = name
    · rw [if_pos hn, hn] at h
      rcases List.mem_cons.mp h with rfl | hp
      · exact .inl rfl
      · exact .inr (List.mem_cons_of_mem _ hp)
    · rw [if_neg hn] at h
      rcases List.mem_cons.mp h with rfl | hp
      · exact .inr List.mem_cons_self
      · rcases ih hp with heq | hp
        · exact .inl heq
        · exact .inr (List.mem_cons_of_mem _ hp)

theorem mem_of_mem_setAll {values new : Values} {p : String × String} (h : p ∈ setAll values new) :
    p ∈ new ∨ p ∈ values := by
  induction new generalizing values with
  | nil => exact .inr h
  | cons q new ih =>
    rcases ih h with hp | hp
    · exact .inl (List.mem_cons_of_mem _ hp)
    · rcases mem_of_mem_set hp with rfl | hp
      · exact .inl List.mem_cons_self
      · exact .inr hp

theorem mem_names_setAll {values new : Values} {name : String} :
    name ∈ (setAll values new).map (·.1) ↔ name ∈ new.map (·.1) ∨ name ∈ values.map (·.1) := by
  induction new generalizing values with
  | nil => simp [setAll]
  | cons q new ih =>
    have hstep := @ih (Values.set q.1 q.2 values)
    rw [Values.mem_names_set] at hstep
    rw [List.map_cons, List.mem_cons]
    refine hstep.trans ?_
    tauto

/-- In a map whose texts are given by their names, the text of a name is the given one. -/
theorem find?_of_mem_names {texts : Values} {t : String → String} (h : ∀ p ∈ texts, p.2 = t p.1) {name : String}
    (hname : name ∈ texts.map (·.1)) : Values.find? texts name = some (t name) := by
  unfold Values.find?
  cases hfind : List.find? (·.1 == name) texts with
  | none =>
    obtain ⟨p, hp, rfl⟩ := List.mem_map.mp hname
    exact absurd (beq_self_eq_true p.1) (List.find?_eq_none.mp hfind p hp)
  | some p =>
    have hsame := List.find?_some hfind
    rw [beq_iff_eq] at hsame
    rw [Option.map_some, h p (List.mem_of_find?_eq_some hfind), hsame]

/-! ## 2. Values in any order -/

/-- The members of a message hold something of the right sort for each of its fields. -/
inductive FieldsAre (sort : LeafKind → Value → Prop) : List Field → List (String × Value) → Prop where
  | nil {members : List (String × Value)} : FieldsAre sort [] members
  | leaf {name : String} {kind : LeafKind} {x : Value} {fields : List Field} {members : List (String × Value)}
      (hfind : Value.member? name members = some x) (hx : sort kind x) (h : FieldsAre sort fields members) :
      FieldsAre sort (.leaf name kind :: fields) members
  | message {name type : String} {inner fields : List Field} {xs members : List (String × Value)}
      (hfind : Value.member? name members = some (.message xs)) (hlength : xs.length = inner.length)
      (hx : FieldsAre sort inner xs) (h : FieldsAre sort fields members) :
      FieldsAre sort (.message name (.mk type inner) :: fields) members

/-- A value is a message of a schema: it has as many members as there are fields, and among them the right one for each
field. -/
def Schema.IsOf (sort : LeafKind → Value → Prop) (schema : Schema) (v : Value) : Prop :=
  ∃ members, v = .message members ∧ members.length = schema.fields.length ∧ FieldsAre sort schema.fields members

/-- A plain field has a value somewhere in a message, under its own name without those of the messages around it. -/
inductive HasLeaf : List Field → List (String × Value) → String → LeafKind → Value → Prop where
  | leaf {fields : List Field} {members : List (String × Value)} {name : String} {kind : LeafKind} {x : Value}
      (hfield : .leaf name kind ∈ fields) (hfind : Value.member? name members = some x) :
      HasLeaf fields members name kind x
  | message {fields inner : List Field} {members xs : List (String × Value)} {outer type name : String}
      {kind : LeafKind} {x : Value} (hfield : .message outer (.mk type inner) ∈ fields)
      (hfind : Value.member? outer members = some (.message xs)) (h : HasLeaf inner xs name kind x) :
      HasLeaf fields members name kind x

/-- Plain fields of one name have one kind and one value, wherever they stand in a value. -/
def Schema.SharesLeaves (schema : Schema) (v : Value) : Prop :=
  ∀ name kind x kind' x', HasLeaf schema.fields v.members name kind x → HasLeaf schema.fields v.members name kind' x' →
    kind = kind' ∧ x = x'

mutual

/-- Two values are the same: messages with the same members, in any order. -/
inductive Value.Same : Value → Value → Prop where
  | bool (b : Bool) : Value.Same (.bool b) (.bool b)
  | int (n : Int) : Value.Same (.int n) (.int n)
  | text (s : String) : Value.Same (.text s) (.text s)
  | bytes (b : Bytes) : Value.Same (.bytes b) (.bytes b)
  | message {xs ys : List (String × Value)} (hlength : xs.length = ys.length) (h : MembersSame xs ys) :
      Value.Same (.message xs) (.message ys)

/-- Each of some members has the same value among others. -/
inductive MembersSame : List (String × Value) → List (String × Value) → Prop where
  | nil {ys : List (String × Value)} : MembersSame [] ys
  | cons {name : String} {x y : Value} {xs ys : List (String × Value)} (hfind : Value.member? name ys = some y)
      (hx : Value.Same x y) (h : MembersSame xs ys) : MembersSame ((name, x) :: xs) ys

end

theorem LeafKind.Fits.same {kind : LeafKind} {x : Value} (h : kind.Fits x) : x.Same x := by
  cases h with
  | bool b => exact .bool b
  | int | uint => exact .int _
  | string s => exact .text s
  | bytes | bytesHex | bytesAddress => exact .bytes _

section

variable {fields : List Field} {members : List (String × Value)} {name : String} {kind : LeafKind} {x : Value}

theorem not_hasLeaf_nil : ¬ HasLeaf [] members name kind x := by
  intro h
  cases h with
  | leaf hfield _ | message hfield _ _ => cases hfield

theorem HasLeaf.cons (h : HasLeaf fields members name kind x) (f : Field) : HasLeaf (f :: fields) members name kind x := by
  cases h with
  | leaf hfield hfind => exact .leaf (List.mem_cons_of_mem f hfield) hfind
  | message hfield hfind h => exact .message (List.mem_cons_of_mem f hfield) hfind h

theorem hasLeaf_leaf_iff {first : String} {sort : LeafKind} :
    HasLeaf (.leaf first sort :: fields) members name kind x ↔
      (name = first ∧ kind = sort ∧ Value.member? first members = some x) ∨ HasLeaf fields members name kind x := by
  constructor
  · intro h
    cases h with
    | leaf hfield hfind =>
      rcases List.mem_cons.mp hfield with heq | hfield
      · cases heq
        exact .inl ⟨rfl, rfl, hfind⟩
      · exact .inr (.leaf hfield hfind)
    | message hfield hfind h =>
      rcases List.mem_cons.mp hfield with heq | hfield
      · cases heq
      · exact .inr (.message hfield hfind h)
  · rintro (⟨rfl, rfl, hfind⟩ | h)
    · exact .leaf List.mem_cons_self hfind
    · exact h.cons _

theorem hasLeaf_message_iff {first type : String} {inner : List Field} {xs : List (String × Value)}
    (hfirst : Value.member? first members = some (.message xs)) :
    HasLeaf (.message first (.mk type inner) :: fields) members name kind x ↔
      HasLeaf inner xs name kind x ∨ HasLeaf fields members name kind x := by
  constructor
  · intro h
    cases h with
    | leaf hfield hfind =>
      rcases List.mem_cons.mp hfield with heq | hfield
      · cases heq
      · exact .inr (.leaf hfield hfind)
    | message hfield hfind h =>
      rcases List.mem_cons.mp hfield with heq | hfield
      · cases heq
        rw [hfirst] at hfind
        cases hfind
        exact .inl h
      · exact .inr (.message hfield hfind h)
  · rintro (h | h)
    · exact .message List.mem_cons_self hfirst h
    · exact h.cons _

theorem FieldsAre.imp {sort sort' : LeafKind → Value → Prop} (h : FieldsAre sort fields members)
    (hsort : ∀ kind x, sort kind x → sort' kind x) : FieldsAre sort' fields members := by
  induction h with
  | nil => exact .nil
  | leaf hfind hx _ ih => exact .leaf hfind (hsort _ _ hx) ih
  | message hfind hlength _ _ ihx ih => exact .message hfind hlength ihx ih

theorem FieldsAre.sort_of_hasLeaf {sort : LeafKind → Value → Prop} (h : FieldsAre sort fields members)
    (hleaf : HasLeaf fields members name kind x) : sort kind x := by
  induction h with
  | nil => exact absurd hleaf not_hasLeaf_nil
  | leaf hfind hx _ ih =>
    rcases hasLeaf_leaf_iff.mp hleaf with ⟨rfl, rfl, hfound⟩ | hleaf
    · rw [hfind] at hfound
      cases hfound
      exact hx
    · exact ih hleaf
  | message hfind _ _ _ ihx ih =>
    rcases (hasLeaf_message_iff hfind).mp hleaf with hleaf | hleaf
    · exact ihx hleaf
    · exact ih hleaf

/-! ## 3. There and back -/

/-- The texts of a message hold the text of each plain field, where a name determines the text. -/
theorem FieldsAre.unbind {sort : LeafKind → Value → Prop} (h : FieldsAre sort fields members) {t : String → String}
    (ht : ∀ name kind x, HasLeaf fields members name kind x → kind.text x = .ok (t name)) {done : Values}
    (hdone : ∀ p ∈ done, p.2 = t p.1) :
    ∃ texts, unbindFields (.message members) fields done = .ok texts ∧ (∀ p ∈ texts, p.2 = t p.1) ∧
      (∀ name ∈ done.map (·.1), name ∈ texts.map (·.1)) ∧
      ∀ name kind x, HasLeaf fields members name kind x → name ∈ texts.map (·.1) := by
  -- A text that is overwritten is overwritten by itself, so the texts so far stay those of their names.
  induction h generalizing done with
  | nil =>
    refine ⟨done, by rw [unbindFields], hdone, fun _ hname => hname, ?_⟩
    exact fun name kind x hleaf => absurd hleaf not_hasLeaf_nil
  | @leaf first kind x fields members hfind _ _ ih =>
    have htext := ht first kind x (hasLeaf_leaf_iff.mpr (.inl ⟨rfl, rfl, hfind⟩))
    have hset : ∀ p ∈ Values.set first (t first) done, p.2 = t p.1 := by
      intro p hp
      rcases mem_of_mem_set hp with rfl | hp
      · rfl
      · exact hdone p hp
    obtain ⟨texts, hrest, hagree, hkept, hall⟩ := ih (fun n k y hleaf => ht n k y (hleaf.cons _)) hset
    refine ⟨texts, ?_, hagree, fun n hn => hkept n (Values.mem_names_set.mpr (.inr hn)), ?_⟩
    · rw [unbindFields, Value.memberIn_message, hfind]
      simp only [htext]
      exact hrest
    · intro n k y hleaf
      rcases hasLeaf_leaf_iff.mp hleaf with ⟨rfl, -, -⟩ | hleaf
      · exact hkept _ (Values.mem_names_set.mpr (.inl rfl))
      · exact hall n k y hleaf
  | @message first type inner fields xs members hfind _ _ _ ihx ih =>
    obtain ⟨innerTexts, hinner, hinnerAgree, -, hinnerAll⟩ :=
      @ihx (fun n k y hleaf => ht n k y ((hasLeaf_message_iff hfind).mpr (.inl hleaf))) [] (by simp)
    have hset : ∀ p ∈ setAll done innerTexts, p.2 = t p.1 := by
      intro p hp
      rcases mem_of_mem_setAll hp with hp | hp
      · exact hinnerAgree p hp
      · exact hdone p hp
    obtain ⟨texts, hrest, hagree, hkept, hall⟩ := ih (fun n k y hleaf => ht n k y (hleaf.cons _)) hset
    refine ⟨texts, ?_, hagree, fun n hn => hkept n (mem_names_setAll.mpr (.inr hn)), ?_⟩
    · rw [unbindFields, Value.memberIn_message, hfind]
      simp only [Schema.unbind, hinner]
      exact hrest
    · intro n k y hleaf
      rcases (hasLeaf_message_iff hfind).mp hleaf with hleaf | hleaf
      · exact hkept n (mem_names_setAll.mpr (.inl (hinnerAll n k y hleaf)))
      · exact hall n k y hleaf

/-- A map that has the text of each plain field gives the members of a message, in the order of the fields. -/
theorem FieldsAre.bind (h : FieldsAre LeafKind.Fits fields members) (hnames : (fields.map (·.name)).Nodup)
    (hdistinct : haveDistinctNames fields) {values : Values}
    (hvalues : ∀ name kind x, HasLeaf fields members name kind x →
      ∃ text, kind.text x = .ok text ∧ values.find? name = some text)
    (done : List (String × Value)) (hdone : ∀ p ∈ done, p.1 ∉ fields.map (·.name)) :
    ∃ ms, bindFields values fields done = .ok (done ++ ms) ∧ ms.length = fields.length ∧ MembersSame ms members := by
  -- As for `FieldsSpell.bind`, each member is new and stands at the end.
  induction h generalizing done with
  | nil => exact ⟨[], by rw [bindFields, List.append_nil], rfl, .nil⟩
  | @leaf first kind x fields members hfind hx _ ih =>
    rw [List.map_cons, List.nodup_cons] at hnames
    obtain ⟨hnew, hnext⟩ := @new_of_cons first _ done x hnames.1 hdone
    obtain ⟨text, htext, hfound⟩ := hvalues first kind x (hasLeaf_leaf_iff.mpr (.inl ⟨rfl, rfl, hfind⟩))
    obtain ⟨ms, hrest, hlength, hsame⟩ := ih hnames.2 hdistinct (fun n k y hleaf => hvalues n k y (hleaf.cons _)) _ hnext
    refine ⟨(first, x) :: ms, ?_, by rw [List.length_cons, List.length_cons, hlength], .cons hfind hx.same hsame⟩
    rw [bindFields, hfound]
    simp only [LeafKind.bind_text hx htext first, Value.setMember_fresh first x done hnew]
    rw [hrest, List.append_assoc]
    rfl
  | @message first type inner fields xs members hfind hinnerLength _ _ ihx ih =>
    rw [List.map_cons, List.nodup_cons] at hnames
    obtain ⟨ys, hinner, hys, hsameInner⟩ := ihx hdistinct.1.1 hdistinct.1.2
      (fun n k y hleaf => hvalues n k y ((hasLeaf_message_iff hfind).mpr (.inl hleaf))) [] (by simp)
    obtain ⟨hnew, hnext⟩ := @new_of_cons first _ done (.message ys) hnames.1 hdone
    obtain ⟨ms, hrest, hlength, hsame⟩ :=
      ih hnames.2 hdistinct.2 (fun n k y hleaf => hvalues n k y (hleaf.cons _)) _ hnext
    refine ⟨(first, .message ys) :: ms, ?_, by rw [List.length_cons, List.length_cons, hlength],
      .cons hfind (.message (hys.trans hinnerLength.symm) hsameInner) hsame⟩
    rw [bindFields, Schema.bind, hinner]
    simp only [Except.map, List.nil_append, Value.setMember_fresh first _ done hnew]
    rw [hrest, List.append_assoc]
    rfl

end

/-- A value whose plain fields agree where they share a name is read back from the map of its texts. -/
theorem Schema.bind_unbind {schema : Schema} {v : Value} (hdistinct : schema.HasDistinctNames)
    (hv : schema.IsOf LeafKind.Fits v) (hshared : schema.SharesLeaves v) :
    ∃ texts w, schema.unbind v = .ok texts ∧ schema.bind texts = .ok w ∧ w.Same v := by
  obtain ⟨type, fields⟩ := schema
  obtain ⟨members, rfl, hlength, hfields⟩ := hv
  rw [Schema.fields] at hlength hfields
  -- Fields of one name have one text, so there is a function from names to texts.
  obtain ⟨t, ht⟩ : ∃ t : String → String,
      ∀ name kind x, HasLeaf fields members name kind x → kind.text x = .ok (t name) := by
    have hname : ∀ name, ∃ text, ∀ kind x, HasLeaf fields members name kind x → kind.text x = .ok text := by
      intro name
      by_cases hleaf : ∃ kind x, HasLeaf fields members name kind x
      · obtain ⟨kind, x, hleaf⟩ := hleaf
        obtain ⟨text, htext⟩ := LeafKind.exists_text (hfields.sort_of_hasLeaf hleaf)
        refine ⟨text, fun kind' x' hother => ?_⟩
        obtain ⟨rfl, rfl⟩ := hshared name kind x kind' x' hleaf hother
        exact htext
      · exact ⟨"", fun kind x h => absurd ⟨kind, x, h⟩ hleaf⟩
    choose t ht using hname
    exact ⟨t, ht⟩
  obtain ⟨texts, hunbind, hagree, -, hall⟩ := @FieldsAre.unbind _ _ _ hfields t ht [] (by simp)
  have hvalues : ∀ name kind x, HasLeaf fields members name kind x →
      ∃ text, kind.text x = .ok text ∧ Values.find? texts name = some text := fun name kind x hleaf =>
    ⟨t name, ht name kind x hleaf, find?_of_mem_names hagree (hall name kind x hleaf)⟩
  obtain ⟨ms, hbind, hms, hsame⟩ := hfields.bind hdistinct.1 hdistinct.2 hvalues [] (by simp)
  refine ⟨texts, .message ms, ?_, ?_, .message (hms.trans hlength.symm) hsame⟩
  · rw [Schema.unbind]
    exact hunbind
  · rw [Schema.bind, hbind]
    rfl

/-- A message with a number and a nested message, which has a number of the same name. -/
def twiceNamed : Schema := .mk "T" [.leaf "n" .int, .message "m" (.mk "U" [.leaf "n" .int, .leaf "b" .bytesAddress])]

/-- A value of this schema, with its members in another order, and without a byte. -/
def twiceFive : Value := .message [("m", .message [("b", .bytes []), ("n", .int (-5))]), ("n", .int (-5))]

theorem bind_unbind_twiceFive :
    twiceNamed.HasDistinctNames ∧ twiceNamed.IsOf LeafKind.Fits twiceFive ∧ twiceNamed.SharesLeaves twiceFive ∧
      ∃ texts w, twiceNamed.unbind twiceFive = .ok texts ∧ twiceNamed.bind texts = .ok w ∧ w.Same twiceFive := by
  have hdistinct : twiceNamed.HasDistinctNames := by
    refine ⟨by decide, ⟨by decide, trivial⟩, trivial⟩
  have hshort : Integer.isWritable (-5) = true := isWritable_of_lt (by decide)
  have hinner : FieldsAre LeafKind.Fits [.leaf "n" .int, .leaf "b" .bytesAddress] [("b", .bytes []), ("n", .int (-5))] :=
    .leaf rfl (.int hshort) (.leaf rfl (.bytesAddress []) .nil)
  have hv : twiceNamed.IsOf LeafKind.Fits twiceFive :=
    ⟨_, rfl, rfl, .leaf rfl (.int hshort) (.message rfl rfl hinner .nil)⟩
  -- There are two numbers of one name, and one other field.
  have hleaf : ∀ name kind x, HasLeaf twiceNamed.fields twiceFive.members name kind x →
      (name = "n" ∧ kind = .int ∧ x = .int (-5)) ∨ (name = "b" ∧ kind = .bytesAddress ∧ x = .bytes []) := by
    intro name kind x h
    rcases hasLeaf_leaf_iff.mp h with ⟨rfl, rfl, hfind⟩ | h
    · cases hfind
      exact .inl ⟨rfl, rfl, rfl⟩
    · rcases (hasLeaf_message_iff rfl).mp h with h | h
      · rcases hasLeaf_leaf_iff.mp h with ⟨rfl, rfl, hfind⟩ | h
        · cases hfind
          exact .inl ⟨rfl, rfl, rfl⟩
        · rcases hasLeaf_leaf_iff.mp h with ⟨rfl, rfl, hfind⟩ | h
          · cases hfind
            exact .inr ⟨rfl, rfl, rfl⟩
          · exact absurd h not_hasLeaf_nil
      · exact absurd h not_hasLeaf_nil
  have hshared : twiceNamed.SharesLeaves twiceFive := by
    intro name kind x kind' x' h h'
    rcases hleaf name kind x h with ⟨rfl, rfl, rfl⟩ | ⟨rfl, rfl, rfl⟩
    · rcases hleaf _ kind' x' h' with ⟨-, rfl, rfl⟩ | ⟨heq, -, -⟩
      · exact ⟨rfl, rfl⟩
      · exact absurd heq (by decide)
    · rcases hleaf _ kind' x' h' with ⟨heq, -, -⟩ | ⟨-, rfl, rfl⟩
      · exact absurd heq (by decide)
      · exact ⟨rfl, rfl⟩
  exact ⟨hdistinct, hv, hshared, Schema.bind_unbind hdistinct hv hshared⟩

end ContractShell
