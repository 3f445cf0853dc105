import ContractShell.Proofs.Bytes.Base58
import ContractShell.Proofs.Json.Canonical
import ContractShell.Proofs.Steps
import ContractShell.Proofs.Value.Survival
import ContractShell.Session.Builtin

/-!
What the lines of a message tell of it.

The fields of a schema say where a line starts and of what kind the text at its end is. A text in quotes shows where it
ends, and no other text holds a comma, so even the lines of a message in one line of text are told apart. All texts are
printable ASCII: where a line ends within itself, it is for the name of a field or for the indentation.

## Main statements

* `LeafKind.Admits.shown_append_inj`: the text of a plain value shows where it ends.
* `eq_of_intercalate_eq`: two displays of one schema that are joined to the same text have the same lines.
* `FieldsShow.isSameIn`: the lines of a message determine its members.
* `FieldsShow.haveLineEnd_iff`: which lines end within themselves.
* `Schema.display_determines`: a message is determined by its lines, also when they are joined.
-/

namespace ContractShell

/-! ## 1. Texts before a comma -/

/-- What may follow a text in a row of texts: nothing, or the comma before the next one. -/
def IsNext (r : List Char) : Prop := ∀ c ∈ r.head?, c = ','

theorem append_inj_of_isNext {s t r r' : List Char} (hs : ',' ∉ s) (ht : ',' ∉ t) (hr : IsNext r) (hr' : IsNext r')
    (h : s ++ r = t ++ r') : s = t ∧ r = r' := by
  induction s generalizing t with
  | nil =>
    cases t with
    | nil => exact ⟨rfl, h⟩
    | cons c t =>
      rw [List.nil_append, List.cons_append] at h
      have hc : c = ',' := hr c (by rw [h]; rfl)
      exact absurd (hc ▸ List.mem_cons_self) ht
  | cons c s ih =>
    cases t with
    | nil =>
      rw [List.nil_append, List.cons_append] at h
      have hc : c = ',' := hr' c (by rw [← h]; rfl)
      exact absurd (hc ▸ List.mem_cons_self) hs
    | cons d t =>
      obtain ⟨rfl, htail⟩ := List.cons.inj h
      obtain ⟨rfl, hrest⟩ := ih (fun hmem => hs (.tail _ hmem)) (fun hmem => ht (.tail _ hmem)) htail
      exact ⟨rfl, hrest⟩

/-! ## 2. Plain values -/

/-- A character of a text without quotes: a minus, a digit or a letter. -/
def isBare (c : Char) : Bool := 45 ≤ c.toNat && c.toNat ≤ 122

theorem isBare_of_isDigit {c : Char} (h : Text.isDigit c = true) : isBare c = true := by
  rw [Text.isDigit, Bool.and_eq_true, decide_eq_true_eq, decide_eq_true_eq] at h
  rw [isBare, Bool.and_eq_true, decide_eq_true_eq, decide_eq_true_eq]
  omega

theorem isBare_of_mem_toString {n : Int} {c : Char} (h : c ∈ (toString n).toList) : isBare c = true := by
  have hdigit : c ∈ Nat.toDigits 10 n.natAbs → isBare c = true :=
    fun hc => isBare_of_isDigit (Integer.isDigit_of_mem_toDigits hc)
  rw [Integer.toList_toString] at h
  by_cases hn : 0 ≤ n
  · rw [if_pos hn] at h
    exact hdigit h
  · rw [if_neg hn] at h
    rcases List.mem_cons.mp h with rfl | hc
    · rfl
    · exact hdigit hc

theorem isBare_of_mem_hexText {b : Bytes} {c : Char} (h : c ∈ (hexText b).toList) : isBare c = true := by
  rw [hexText, String.toList_ofList] at h
  rcases List.mem_append.mp h with hmark | hdigits
  · have hall : hexMark.all isBare = true := by decide
    exact List.all_eq_true.mp hall c hmark
  · have hdigit := Hex.isHexDigit_of_mem_encode hdigits
    unfold Text.isHexDigit Text.hexDigit? at hdigit
    rw [isBare, Bool.and_eq_true, decide_eq_true_eq, decide_eq_true_eq]
    grind

theorem isBare_of_mem_base58 {b : Bytes} {c : Char} (h : c ∈ (Base58.toString b).toList) : isBare c = true := by
  have hall : Base58.alphabet.all isBare = true := by rw [Base58.alphabet_eq]; decide
  rw [Base58.toString, String.toList_ofList] at h
  exact List.all_eq_true.mp hall c (Base58.isDigit_iff.mp (Base58.isDigit_of_mem_encode h))

theorem hexText_injective {a b : Bytes} (h : hexText a = hexText b) : a = b :=
  Hex.encode_injective (List.append_cancel_left (String.ofList_injective h))

theorem shown_int (n : Int) : LeafKind.shown .int (.int n) = Value.numeral n := by
  simp only [LeafKind.shown, LeafKind.text, Value.integer_int, Except.bind]

theorem shown_uint (n : Int) : LeafKind.shown .uint (.int n) = Value.numeral n := by
  simp only [LeafKind.shown, LeafKind.text, Value.integer_int, Except.bind]

theorem toString_of_numeral {n : Int} {text : String} (h : Value.numeral n = .ok text) : toString n = text := by
  unfold Value.numeral at h
  split at h
  · rename_i s hs
    cases h
    exact Option.some.inj (Option.ite_none_right_eq_some.mp hs).2
  · cases h

theorem numeral_injective {n m : Int} {text : String} (hn : Value.numeral n = .ok text) (hm : Value.numeral m = .ok text) :
    n = m := Json.numeral_inj ((toString_of_numeral hn).trans (toString_of_numeral hm).symm)

section

variable {kind : LeafKind} {x y : Value} {text text' : String} {r r' : List Char}

/-- Only texts of strings have other characters than a minus, digits and letters. -/
theorem LeafKind.Admits.isBare_of_shown (hx : kind.Admits x) (h : kind.shown x = .ok text) (hkind : kind ≠ .string)
    {c : Char} (hc : c ∈ text.toList) : isBare c = true := by
  cases hx with
  | bool b =>
    have hall : ∀ b : Bool, (if b then "true" else "false").toList.all isBare = true := by decide
    cases h
    exact List.all_eq_true.mp (hall b) c hc
  | int n =>
    rw [shown_int] at h
    rw [← toString_of_numeral h] at hc
    exact isBare_of_mem_toString hc
  | uint n =>
    rw [shown_uint] at h
    rw [← toString_of_numeral h] at hc
    exact isBare_of_mem_toString hc
  | string s => exact absurd rfl hkind
  | bytes b | bytesHex b =>
    cases h
    exact isBare_of_mem_hexText hc
  | bytesAddress b =>
    cases h
    exact isBare_of_mem_base58 hc

theorem LeafKind.Admits.isPlain_of_shown (hx : kind.Admits x) (h : kind.shown x = .ok text) {c : Char}
    (hc : c ∈ text.toList) : Json.isPlain c = true := by
  by_cases hkind : kind = .string
  · subst hkind
    cases hx with
    | string s =>
      cases h
      rw [String.toList_ofList] at hc
      exact Json.isPlain_of_mem_writeString hc
  · have hbare := hx.isBare_of_shown h hkind hc
    rw [isBare, Bool.and_eq_true, decide_eq_true_eq, decide_eq_true_eq] at hbare
    rw [Json.isPlain, Bool.and_eq_true, decide_eq_true_eq, decide_eq_true_eq]
    omega

/-- A value of a kind is determined by its text. -/
theorem LeafKind.Admits.eq_of_shown (hx : kind.Admits x) (hy : kind.Admits y) (h : kind.shown x = .ok text)
    (h' : kind.shown y = .ok text) : x = y := by
  cases hx with
  | bool a =>
    cases hy with
    | bool b =>
      have htext : (if a then "true" else "false") = (if b then "true" else "false") :=
        Except.ok.inj (h.trans h'.symm)
      cases a <;> cases b
      · rfl
      · exact absurd htext (by decide)
      · exact absurd htext (by decide)
      · rfl
  | int n =>
    cases hy with
    | int m =>
      rw [shown_int] at h h'
      rw [numeral_injective h h']
  | uint n =>
    cases hy with
    | uint m =>
      rw [shown_uint] at h h'
      rw [numeral_injective h h']
  | string a =>
    cases hy with
    | string b =>
      have htext := String.ofList_injective (Except.ok.inj (h.trans h'.symm))
      rw [(Json.writeString_append_inj (congrArg (· ++ []) htext)).1]
  | bytes a =>
    cases hy with
    | bytes b => rw [hexText_injective (Except.ok.inj (h.trans h'.symm))]
  | bytesHex a =>
    cases hy with
    | bytesHex b => rw [hexText_injective (Except.ok.inj (h.trans h'.symm))]
  | bytesAddress a =>
    cases hy with
    | bytesAddress b => rw [Base58.toString_injective (Except.ok.inj (h.trans h'.symm))]

/-- The text of a value shows where it ends, whatever comes next. -/
theorem LeafKind.Admits.shown_append_inj (hx : kind.Admits x) (hy : kind.Admits y) (h : kind.shown x = .ok text)
    (h' : kind.shown y = .ok text') (hr : IsNext r) (hr' : IsNext r') (heq : text.toList ++ r = text'.toList ++ r') :
    text = text' ∧ r = r' := by
  by_cases hkind : kind = .string
  · subst hkind
    cases hx with
    | string a =>
      cases hy with
      | string b =>
        cases h
        cases h'
        rw [String.toList_ofList, String.toList_ofList] at heq
        obtain ⟨rfl, hrest⟩ := Json.writeString_append_inj heq
        exact ⟨rfl, hrest⟩
  · have hcomma : isBare ',' = false := by decide
    have hs : ',' ∉ text.toList := by
      intro hmem
      rw [hx.isBare_of_shown h hkind hmem] at hcomma
      cases hcomma
    have ht : ',' ∉ text'.toList := by
      intro hmem
      rw [hy.isBare_of_shown h' hkind hmem] at hcomma
      cases hcomma
    obtain ⟨htext, hrest⟩ := append_inj_of_isNext hs ht hr hr' heq
    exact ⟨String.toList_inj.mp htext, hrest⟩

end

/-! ## 3. The lines of a message -/

/-- The lines of a message: one for each plain field, and those of a nested message between two braces. -/
inductive FieldsShow (indent : String) : List Field → List (String × Value) → List String → Prop where
  | nil {members : List (String × Value)} : FieldsShow indent [] members []
  | leaf {name text : String} {kind : LeafKind} {x : Value} {fields : List Field} {members : List (String × Value)}
      {lines : List String} (hfind : Value.member? name members = some x) (hx : kind.Admits x)
      (htext : kind.shown x = .ok text) (h : FieldsShow indent fields members lines) :
      FieldsShow indent (.leaf name kind :: fields) members ((name ++ ": " ++ text) :: lines)
  | message {name type : String} {inner fields : List Field} {xs members : List (String × Value)}
      {innerLines lines : List String} (hfind : Value.member? name members = some (.message xs))
      (hlength : xs.length = inner.length) (hx : FieldsShow indent inner xs innerLines)
      (h : FieldsShow indent fields members lines) :
      FieldsShow indent (.message name (.mk type inner) :: fields) members
        ((name ++ " \x7b") :: (innerLines.map (indent ++ ·) ++ "\x7d" :: lines))

section

variable {indent : String} {fields : List Field} {members xs ys : List (String × Value)} {ls ls' lines : List String}

theorem FieldsAre.shows (h : FieldsAre LeafKind.Admits fields members)
    (hlines : displayFields indent (.message members) fields = .ok lines) : FieldsShow indent fields members lines := by
  induction h generalizing lines with
  | nil =>
    rw [displayFields] at hlines
    cases hlines
    exact .nil
  | @leaf name kind x fields members hfind hx _ ih =>
    rw [displayFields, Value.memberIn_message, hfind] at hlines
    cases htext : kind.shown x with
    | error fault =>
      simp only [htext] at hlines
      cases hlines
    | ok text =>
      simp only [htext] at hlines
      obtain ⟨rest, hrest, rfl⟩ := of_map_eq_ok hlines
      exact .leaf hfind hx htext (ih hrest)
  | @message name type inner fields xs members hfind hlength _ _ ihx ih =>
    rw [displayFields, Value.memberIn_message, hfind] at hlines
    cases hinner : Schema.display indent (.mk type inner) (.message xs) with
    | error fault =>
      simp only [hinner] at hlines
      cases hlines
    | ok innerLines =>
      simp only [hinner] at hlines
      obtain ⟨rest, hrest, rfl⟩ := of_map_eq_ok hlines
      rw [Schema.display] at hinner
      exact .message hfind hlength (ihx hinner) (ih hrest)

/-! ## 4. Lines of one schema -/

/-- Two lines that one field may have: the same line, or one start before texts of one kind. -/
inductive Alike : String → String → Prop where
  | same (line : String) : Alike line line
  | texts (start : String) {kind : LeafKind} {x y : Value} {text text' : String} (hx : kind.Admits x)
      (hy : kind.Admits y) (htext : kind.shown x = .ok text) (htext' : kind.shown y = .ok text') :
      Alike (start ++ text) (start ++ text')

theorem Alike.append_left {a b : String} (h : Alike a b) : Alike (indent ++ a) (indent ++ b) := by
  cases h with
  | same => exact .same _
  | texts start hx hy htext htext' =>
    rw [← String.append_assoc, ← String.append_assoc]
    exact .texts _ hx hy htext htext'

theorem Alike.append_inj {a b : String} {r r' : List Char} (h : Alike a b) (hr : IsNext r) (hr' : IsNext r')
    (heq : a.toList ++ r = b.toList ++ r') : a = b ∧ r = r' := by
  cases h with
  | same => exact ⟨rfl, List.append_cancel_left heq⟩
  | texts start hx hy htext htext' =>
    rw [String.toList_append, String.toList_append, List.append_assoc, List.append_assoc] at heq
    obtain ⟨rfl, hrest⟩ := hx.shown_append_inj hy htext htext' hr hr' (List.append_cancel_left heq)
    exact ⟨rfl, hrest⟩

/-- The lines of two messages of a schema are alike, one by one. -/
theorem FieldsShow.alike (hx : FieldsShow indent fields xs ls) (hy : FieldsShow indent fields ys ls') :
    List.Forall₂ Alike ls ls' := by
  induction hx generalizing ys ls' with
  | nil =>
    cases hy
    exact .nil
  | leaf _ hx htext _ ih =>
    cases hy with
    | leaf _ hy htext' hrest => exact .cons (.texts _ hx hy htext htext') (ih hrest)
  | message _ _ _ _ ihx ih =>
    cases hy with
    | message _ _ hinner hrest =>
      refine .cons (.same _) (List.rel_append ?_ (.cons (.same _) (ih hrest)))
      rw [List.forall₂_map_left_iff, List.forall₂_map_right_iff]
      exact (ihx hinner).imp fun _ _ halike => halike.append_left

/-- Lines behind another one, each after a comma. -/
def followers (lines : List String) : List Char := lines.flatMap fun line => ',' :: ' ' :: line.toList

theorem isNext_followers (lines : List String) : IsNext (followers lines) := by
  intro c hc
  cases lines with
  | nil => cases hc
  | cons line lines =>
    cases hc
    rfl

theorem toList_intercalate_cons (line : String) (lines : List String) :
    (String.intercalate ", " (line :: lines)).toList = line.toList ++ followers lines := by
  induction lines generalizing line with
  | nil => simp [followers]
  | cons next lines ih =>
    rw [String.intercalate_cons_cons, String.toList_append, String.toList_append, ih, List.append_assoc]
    rfl

theorem eq_of_followers_eq (h : List.Forall₂ Alike ls ls') (heq : followers ls = followers ls') : ls = ls' := by
  induction h with
  | nil => rfl
  | @cons a b ls ls' halike _ ih =>
    have htail : a.toList ++ followers ls = b.toList ++ followers ls' := (List.cons.inj (List.cons.inj heq).2).2
    obtain ⟨rfl, hrest⟩ := halike.append_inj (isNext_followers ls) (isNext_followers ls') htail
    rw [ih hrest]

/-- Lines that are alike are told apart when they are joined. -/
theorem eq_of_intercalate_eq (h : List.Forall₂ Alike ls ls')
    (heq : String.intercalate ", " ls = String.intercalate ", " ls') : ls = ls' := by
  cases h with
  | nil => rfl
  | @cons a b ls ls' halike hrest =>
    have htext := congrArg String.toList heq
    rw [toList_intercalate_cons, toList_intercalate_cons] at htext
    obtain ⟨rfl, hfollowers⟩ := halike.append_inj (isNext_followers ls) (isNext_followers ls') htext
    rw [eq_of_followers_eq hrest hfollowers]

/-! ## 5. From the lines to the members -/

/-- The lines of a message determine its members. -/
theorem FieldsShow.isSameIn (hx : FieldsShow indent fields xs lines) (hy : FieldsShow indent fields ys lines)
    (hdistinct : haveDistinctNames fields) : ∀ f ∈ fields, f.IsSameIn xs ys := by
  induction hx generalizing ys with
  | nil => exact nofun
  | @leaf name text kind x fields xs lines hfind hx htext _ ih =>
    generalize hline : name ++ ": " ++ text = line at hy
    cases hy with
    | @leaf _ text' _ y _ _ _ hfind' hy htext' hrest =>
      rw [String.append_right_inj] at hline
      rw [← hline] at htext'
      have hsame : x = y := hx.eq_of_shown hy htext htext'
      rw [List.forall_mem_cons]
      exact ⟨⟨x, y, hfind, hfind', hsame ▸ hx.same⟩, ih hrest hdistinct⟩
  | @message name type inner fields us xs innerLines lines hfind hlength hu _ ihx ih =>
    generalize hline : innerLines.map (indent ++ ·) ++ "\x7d" :: lines = block at hy
    cases hy with
    | @message _ _ _ _ vs _ innerLines' lines' hfind' hlength' hv hrest =>
      -- Both blocks have as many lines, so they end at the same brace.
      have hlengths := (hu.alike hv).length_eq
      obtain ⟨hinner, htail⟩ := List.append_inj hline (by rw [List.length_map, List.length_map, hlengths])
      rw [← (List.cons.inj htail).2] at hrest
      rw [← List.map_injective_iff.mpr (fun a b => (String.append_right_inj indent).mp) hinner] at hv
      have hsame : Value.Same (.message us) (.message vs) :=
        .message (hlength.trans hlength'.symm)
          (membersSame_of_fields hdistinct.1.1 hlength (ihx hv hdistinct.1.2))
      rw [List.forall_mem_cons]
      exact ⟨⟨.message us, .message vs, hfind, hfind', hsame⟩, ih hrest hdistinct.2⟩

/-! ## 6. Line ends -/

/-- A text that ends a line within itself. -/
def HasLineEnd (s : String) : Prop := ∃ c ∈ s.toList, Text.isLineEnd c = true

theorem hasLineEnd_append {s t : String} : HasLineEnd (s ++ t) ↔ HasLineEnd s ∨ HasLineEnd t := by
  unfold HasLineEnd
  rw [String.toList_append]
  simp only [List.mem_append, or_and_right, exists_or]

theorem not_hasLineEnd_of_isPlain {s : String} (h : s.toList.all Json.isPlain = true) : ¬ HasLineEnd s := by
  rintro ⟨c, hc, hend⟩
  have hplain := List.all_eq_true.mp h c hc
  rw [Json.isPlain, Bool.and_eq_true, decide_eq_true_eq, decide_eq_true_eq] at hplain
  unfold Text.isLineEnd at hend
  grind

/-- One of some texts does. -/
def HaveLineEnd (texts : List String) : Prop := ∃ s ∈ texts, HasLineEnd s

theorem haveLineEnd_cons {s : String} {texts : List String} :
    HaveLineEnd (s :: texts) ↔ HasLineEnd s ∨ HaveLineEnd texts := List.exists_mem_cons_iff _ _ _

theorem haveLineEnd_append {texts texts' : List String} :
    HaveLineEnd (texts ++ texts') ↔ HaveLineEnd texts ∨ HaveLineEnd texts' := by
  unfold HaveLineEnd
  simp only [List.mem_append, or_and_right, exists_or]

theorem haveLineEnd_indent {texts : List String} :
    HaveLineEnd (texts.map (indent ++ ·)) ↔ HasLineEnd indent ∧ texts ≠ [] ∨ HaveLineEnd texts := by
  induction texts with
  | nil => simp [HaveLineEnd]
  | cons s texts ih =>
    rw [List.map_cons, haveLineEnd_cons, haveLineEnd_cons, hasLineEnd_append, ih]
    by_cases hindent : HasLineEnd indent
    · simp [hindent]
    · simp [hindent]

mutual

/-- The names of all fields of a message, and of the messages in it. -/
def Schema.labels : Schema → List String
  | .mk _ fields => labelsOf fields

/-- The names of some fields, and of those in their messages. -/
def labelsOf : List Field → List String
  | [] => []
  | .leaf name _ :: r => name :: labelsOf r
  | .message name schema :: r => name :: (schema.labels ++ labelsOf r)
  | .unknown name :: r => name :: labelsOf r

end

/-- A field with lines that are indented: a message with fields. -/
def Field.IsBlock : Field → Prop
  | .message _ schema => schema.fields ≠ []
  | _ => False

theorem FieldsShow.eq_nil_iff (h : FieldsShow indent fields members lines) : lines = [] ↔ fields = [] := by
  cases h with
  | nil => exact ⟨fun _ => rfl, fun _ => rfl⟩
  | leaf | message => exact ⟨nofun, nofun⟩

/-- Lines end within themselves for names and for the indentation only. -/
theorem FieldsShow.haveLineEnd_iff (h : FieldsShow indent fields members lines) :
    HaveLineEnd lines ↔ HaveLineEnd (labelsOf fields) ∨ HasLineEnd indent ∧ ∃ f ∈ fields, f.IsBlock := by
  induction h with
  | nil => simp [HaveLineEnd, labelsOf]
  | leaf _ hx htext _ ih =>
    have hplain := not_hasLineEnd_of_isPlain (List.all_eq_true.mpr fun _ => hx.isPlain_of_shown htext)
    have hcolon : ¬ HasLineEnd ": " := not_hasLineEnd_of_isPlain (by decide)
    simp only [haveLineEnd_cons, labelsOf, hasLineEnd_append, hplain, hcolon, ih, List.exists_mem_cons_iff, Field.IsBlock,
      or_false, false_or, or_assoc]
  | @message name type inner fields us members innerLines lines _ _ hu _ ihx ih =>
    have hopen : ¬ HasLineEnd " \x7b" := not_hasLineEnd_of_isPlain (by decide)
    have hclose : ¬ HasLineEnd "\x7d" := not_hasLineEnd_of_isPlain (by decide)
    -- Where a message in the inner one has lines, the inner one has lines itself.
    have hinner : (∃ f ∈ inner, f.IsBlock) → inner ≠ [] := by
      rintro ⟨f, hf, -⟩
      exact List.ne_nil_of_mem hf
    simp only [haveLineEnd_cons, haveLineEnd_append, haveLineEnd_indent, labelsOf, Schema.labels, hasLineEnd_append, hopen,
      hclose, ihx, ih, ne_eq, hu.eq_nil_iff, List.exists_mem_cons_iff, Field.IsBlock, Schema.fields, or_false, false_or]
    grind

end

/-! ## 7. Messages and their lines -/

section

variable {schema : Schema} {v w : Value} {indent : String} {lines ls ls' : List String}

theorem Schema.IsOf.shows (hv : schema.IsOf LeafKind.Admits v) (hlines : schema.display indent v = .ok lines) :
    ∃ members, v = .message members ∧ members.length = schema.fields.length ∧
      FieldsShow indent schema.fields members lines := by
  obtain ⟨type, fields⟩ := schema
  obtain ⟨members, rfl, hlength, hfields⟩ := hv
  rw [Schema.display] at hlines
  exact ⟨members, rfl, hlength, hfields.shows hlines⟩

/-- Messages with the same lines are the same. -/
theorem Schema.IsOf.same_of_display (hdistinct : schema.HasDistinctNames) (hv : schema.IsOf LeafKind.Admits v)
    (hw : schema.IsOf LeafKind.Admits w) (hlines : schema.display indent v = .ok lines)
    (hlines' : schema.display indent w = .ok lines) : v.Same w := by
  obtain ⟨xs, rfl, hlength, hx⟩ := hv.shows hlines
  obtain ⟨ys, rfl, hlength', hy⟩ := hw.shows hlines'
  obtain ⟨type, fields⟩ := schema
  apply Value.Same.message (hlength.trans hlength'.symm)
  exact membersSame_of_fields hdistinct.1 hlength (hx.isSameIn hy hdistinct.2)

/-- Messages whose lines are joined to the same text are the same. -/
theorem Schema.IsOf.same_of_joined (hdistinct : schema.HasDistinctNames) (hv : schema.IsOf LeafKind.Admits v)
    (hw : schema.IsOf LeafKind.Admits w) (hls : schema.display indent v = .ok ls) (hls' : schema.display indent w = .ok ls')
    (heq : String.intercalate ", " ls = String.intercalate ", " ls') : v.Same w := by
  obtain ⟨xs, -, -, hx⟩ := hv.shows hls
  obtain ⟨ys, -, -, hy⟩ := hw.shows hls'
  rw [← eq_of_intercalate_eq (hx.alike hy) heq] at hls'
  exact hv.same_of_display hdistinct hw hls hls'

theorem callAnnouncement_eq_ok_iff {command text : String} {method : Method} :
    Session.callAnnouncement command method v = .ok text ↔ ∃ lines, method.arguments.display "" v = .ok lines ∧
      "Calling " ++ command ++ " with arguments '" ++ String.intercalate ", " lines ++ "'" = text := by
  unfold Session.callAnnouncement
  cases method.arguments.display "" v with
  | error fault => exact ⟨nofun, nofun⟩
  | ok lines =>
    simp only [Except.mapError, Except.ok.injEq, exists_eq_left']
    exact ⟨fun h => Except.ok.inj h, fun h => congrArg Except.ok h⟩

/-- Two messages of a schema have the same lines only when they are the same, and so with the lines joined, as they are
when a method is called. A line ends within itself only if a name does or the indentation of a line. -/
theorem Schema.display_determines (hdistinct : schema.HasDistinctNames) (hv : schema.IsOf LeafKind.Admits v)
    (hw : schema.IsOf LeafKind.Admits w) (indent : String) :
    (∀ lines, schema.display indent v = .ok lines → schema.display indent w = .ok lines → v.Same w) ∧
      (∀ ls ls', schema.display indent v = .ok ls → schema.display indent w = .ok ls' →
        String.intercalate ", " ls = String.intercalate ", " ls' → v.Same w) ∧
      (∀ command method text, method.arguments = schema → Session.callAnnouncement command method v = .ok text →
        Session.callAnnouncement command method w = .ok text → v.Same w) ∧
      ∀ lines, schema.display indent v = .ok lines → ((∃ line ∈ lines, HasLineEnd line) ↔
        (∃ name ∈ schema.labels, HasLineEnd name) ∨ HasLineEnd indent ∧ ∃ f ∈ schema.fields, f.IsBlock) := by
  refine ⟨fun lines => hv.same_of_display hdistinct hw, fun ls ls' => hv.same_of_joined hdistinct hw, ?_, ?_⟩
  · intro command method text hmethod hv' hw'
    obtain ⟨ls, hls, htext⟩ := callAnnouncement_eq_ok_iff.mp hv'
    obtain ⟨ls', hls', htext'⟩ := callAnnouncement_eq_ok_iff.mp hw'
    rw [hmethod] at hls hls'
    rw [← htext', String.append_left_inj, String.append_right_inj] at htext
    exact hv.same_of_joined hdistinct hw hls hls' htext
  · intro lines hlines
    obtain ⟨members, -, -, hshow⟩ := hv.shows hlines
    obtain ⟨type, fields⟩ := schema
    exact hshow.haveLineEnd_iff

end

/-- A message with a message of two fields. -/
def quotedBlock : Schema := .mk "T" [.leaf "s" .string, .message "m" (.mk "U" [.leaf "t" .string, .leaf "b" .bytes])]

/-- A value whose texts have commas, quotes, braces and line ends. -/
def quotedBlockValue : Value :=
  .message [("s", .text "a\", t: \x7b"), ("m", .message [("t", .text "\x7d\nb: 0x"), ("b", .bytes [])])]

/-- The same value with its members in another order. -/
def quotedBlockTurned : Value :=
  .message [("m", .message [("b", .bytes []), ("t", .text "\x7d\nb: 0x")]), ("s", .text "a\", t: \x7b")]

theorem display_determines_quotedBlock :
    quotedBlock.HasDistinctNames ∧ quotedBlock.IsOf LeafKind.Admits quotedBlockValue ∧
      quotedBlock.IsOf LeafKind.Admits quotedBlockTurned ∧
      quotedBlock.display displayIndent quotedBlockValue = .ok
        ["s: \"a\\\", t: \x7b\"", "m \x7b", "  t: \"\x7d\\nb: 0x\"", "  b: 0x", "\x7d"] ∧
      quotedBlock.display displayIndent quotedBlockTurned = quotedBlock.display displayIndent quotedBlockValue ∧
      quotedBlockValue.Same quotedBlockTurned := by
  have hdistinct : quotedBlock.HasDistinctNames := ⟨by decide, ⟨by decide, trivial⟩, trivial⟩
  have hinner : FieldsAre LeafKind.Admits [.leaf "t" .string, .leaf "b" .bytes]
      [("t", .text "\x7d\nb: 0x"), ("b", .bytes [])] := .leaf rfl (.string _) (.leaf rfl (.bytes _) .nil)
  have hinner' : FieldsAre LeafKind.Admits [.leaf "t" .string, .leaf "b" .bytes]
      [("b", .bytes []), ("t", .text "\x7d\nb: 0x")] := .leaf rfl (.string _) (.leaf rfl (.bytes _) .nil)
  have hv : quotedBlock.IsOf LeafKind.Admits quotedBlockValue :=
    ⟨_, rfl, rfl, .leaf rfl (.string _) (.message rfl rfl hinner .nil)⟩
  have hw : quotedBlock.IsOf LeafKind.Admits quotedBlockTurned :=
    ⟨_, rfl, rfl, .leaf rfl (.string _) (.message rfl rfl hinner' .nil)⟩
  have hlines : quotedBlock.display displayIndent quotedBlockValue = .ok
      ["s: \"a\\\", t: \x7b\"", "m \x7b", "  t: \"\x7d\\nb: 0x\"", "  b: 0x", "\x7d"] := by decide
  have hturned : quotedBlock.display displayIndent quotedBlockTurned = quotedBlock.display displayIndent quotedBlockValue := by
    decide
  have hsame := (Schema.display_determines hdistinct hv hw displayIndent).1 _ hlines (hturned.trans hlines)
  exact ⟨hdistinct, hv, hw, hlines, hturned, hsame⟩

/-- A message with a message of one field. -/
def smallBlock : Schema := .mk "T" [.message "m" (.mk "U" [.leaf "b" .bool])]

/-- A message with a field whose name has a line end. -/
def brokenName : Schema := .mk "T" [.leaf "a\nb" .bool]

/-- Lines that are indented by a line end, or whose fields are named with one, end within themselves. -/
theorem lines_end_within :
    (smallBlock.HasDistinctNames ∧
      smallBlock.IsOf LeafKind.Admits (.message [("m", .message [("b", .bool true)])]) ∧
      smallBlock.display "\n" (.message [("m", .message [("b", .bool true)])]) = .ok ["m \x7b", "\nb: true", "\x7d"] ∧
      HasLineEnd "\nb: true") ∧
    brokenName.HasDistinctNames ∧ brokenName.IsOf LeafKind.Admits (.message [("a\nb", .bool true)]) ∧
      brokenName.display displayIndent (.message [("a\nb", .bool true)]) = .ok ["a\nb: true"] ∧
      HasLineEnd "a\nb: true" := by
  have hend : Text.isLineEnd '\n' = true := by decide
  refine ⟨⟨⟨by decide, ⟨by decide, trivial⟩, trivial⟩, ?_, by decide, '\n', by decide, hend⟩, ⟨by decide, trivial⟩, ?_,
    by decide, '\n', by decide, hend⟩
  · exact ⟨_, rfl, rfl, .message rfl rfl (.leaf rfl (.bool true) .nil) .nil⟩
  · exact ⟨_, rfl, rfl, .leaf rfl (.bool true) .nil⟩

end ContractShell
