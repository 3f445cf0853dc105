import ContractShell.Command.Token

/-!
The languages of arguments: which tokens are written for a value of each kind.

A token is delimited when a blank, a separator or the end of the line follows it. Readers take the longest token that
they can, so a delimited token of a kind's language is read as a whole.

## Main statements

* `Kind.read_of_denotes`: a delimited token is read back as the value that it was written for.
* `Kind.Denotes.starts`: a token starts with neither a blank nor a separator.
-/

namespace ContractShell.Command

/-! ## 1. Delimiters -/

/-- A character that ends a token: a blank or a separator. -/
def isDelimiter (c : Char) : Bool := Text.isBlank c || c = ';'

/-- A text that starts with a delimiter, or is at its end. -/
def isDelimited : List Char → Bool
  | [] => true
  | c :: _ => isDelimiter c

theorem isDelimited_append_blanks {g s : List Char} (hg : ∀ c ∈ g, Text.isBlank c = true)
    (hs : isDelimited s = true) : isDelimited (g ++ s) = true := by
  cases g with
  | nil => exact hs
  | cons c r =>
    show (Text.isBlank c || decide (c = ';')) = true
    rw [hg c (by simp), Bool.true_or]

/-- The code points of blanks. -/
def blankCodes : List Nat :=
  [9, 10, 11, 12, 13, 28, 29, 30, 31, 32, 0x85, 0xA0, 0x1680, 0x2000, 0x2001, 0x2002, 0x2003, 0x2004, 0x2005, 0x2006,
   0x2007, 0x2008, 0x2009, 0x200A, 0x2028, 0x2029, 0x202F, 0x205F, 0x3000]

theorem mem_blankCodes_of_isBlank {c : Char} (h : Text.isBlank c = true) : c.toNat ∈ blankCodes := by
  simp only [Text.isBlank, Bool.or_eq_true, Bool.and_eq_true, decide_eq_true_eq, beq_iff_eq] at h
  simp only [blankCodes, List.mem_cons, List.not_mem_nil, or_false]
  omega

/-- What holds of the few delimiters one by one holds of all. -/
theorem forall_delimiter {P : Char → Prop} (h : ∀ n ∈ 59 :: blankCodes, P (Char.ofNat n)) {c : Char}
    (hc : isDelimiter c = true) : P c := by
  have hmem : c.toNat ∈ 59 :: blankCodes := by
    simp only [isDelimiter, Bool.or_eq_true, decide_eq_true_eq] at hc
    rcases hc with hc | rfl
    · exact List.mem_cons_of_mem _ (mem_blankCodes_of_isBlank hc)
    · decide
  rw [← Char.ofNat_toNat c]
  exact h _ hmem

/-- A class of characters without delimiters. -/
def IsSolid (p : Char → Bool) : Prop := ∀ c, isDelimiter c = true → p c = false

/-- The classes of which tokens without quotes are made. -/
def tokenClasses : List (Char → Bool) :=
  [Text.isDigit, Text.isHexDigit, Text.isDecimal, isWordChar, Base58.isDigit]

/-- No delimiter is in a class of characters of tokens. -/
theorem isSolid_of_mem {p : Char → Bool} (hp : p ∈ tokenClasses) : IsSolid p := by
  have hbase58 : Base58.isDigit = Base58.alphabet.contains := rfl
  have hcodes : ∀ n ∈ 59 :: blankCodes, ∀ q ∈ tokenClasses, q (Char.ofNat n) = false := by
    rw [tokenClasses, hbase58, Base58.alphabet_eq]
    decide +kernel
  intro c hc
  exact forall_delimiter (P := fun c => p c = false) (fun n hn => hcodes n hn p hp) hc

theorem isSolid_isDigit : IsSolid Text.isDigit := isSolid_of_mem (by simp [tokenClasses])

theorem isSolid_isHexDigit : IsSolid Text.isHexDigit := isSolid_of_mem (by simp [tokenClasses])

theorem isSolid_isDecimal : IsSolid Text.isDecimal := isSolid_of_mem (by simp [tokenClasses])

theorem isSolid_isWordChar : IsSolid isWordChar := isSolid_of_mem (by simp [tokenClasses])

theorem isSolid_base58 : IsSolid Base58.isDigit := isSolid_of_mem (by simp [tokenClasses])

/-! ## 2. Runs -/

/-- At least one character, all of a class. -/
def IsRun (p : Char → Bool) (s : List Char) : Prop := s ≠ [] ∧ ∀ c ∈ s, p c = true

theorem isRun_of_all {p : Char → Bool} {s : List Char} (hne : s ≠ []) (hall : s.all p = true) : IsRun p s :=
  ⟨hne, List.all_eq_true.mp hall⟩

/-- A text that does not go on with a character of a class. -/
def stops (p : Char → Bool) : List Char → Bool
  | [] => true
  | c :: _ => !p c

theorem stops_of_isDelimited {p : Char → Bool} (hp : IsSolid p) {s : List Char} (hs : isDelimited s = true) :
    stops p s = true := by
  cases s with
  | nil => rfl
  | cons c r =>
    show (!p c) = true
    rw [hp c hs, Bool.not_false]

theorem spanOf_append_of_stops {p : Char → Bool} {w r : List Char} (hw : ∀ c ∈ w, p c = true)
    (hr : stops p r = true) : spanOf p (w ++ r) = (w, r) := by
  have hnil : r.takeWhile p = [] ∧ r.dropWhile p = r := by
    cases r with
    | nil => exact ⟨rfl, rfl⟩
    | cons c t =>
      have hc : p c = false := by simpa [stops] using hr
      simp [hc]
  unfold spanOf
  rw [List.takeWhile_append_of_pos hw, List.dropWhile_append_of_pos hw, hnil.1, hnil.2, List.append_nil]

theorem run?_append_of_stops {p : Char → Bool} {w r : List Char} (hw : IsRun p w) (hr : stops p r = true) :
    run? p (w ++ r) = some (w, r) := by
  unfold run?
  rw [spanOf_append_of_stops hw.2 hr]
  cases w with
  | nil => exact absurd rfl hw.1
  | cons c t => rfl

/-- Where no character of a class stands there is no run of it. -/
theorem run?_eq_none_of_stops {p : Char → Bool} {s : List Char} (hs : stops p s = true) : run? p s = none := by
  unfold run?
  rw [show s = [] ++ s from rfl, spanOf_append_of_stops (by simp) hs]

/-! ## 3. Names -/

/-- A command name: a word, or two words with a point between them. -/
def IsName (s : List Char) : Prop :=
  IsRun isWordChar s ∨ ∃ w v, IsRun isWordChar w ∧ IsRun isWordChar v ∧ s = w ++ '.' :: v

/-- A name is read as a whole where neither a letter of a word nor a point follows it. -/
theorem name?_append_of_isDelimited {s r : List Char} (hs : IsName s) (hr : isDelimited r = true) :
    name? (s ++ r) = some (s, r) := by
  have hstop : stops isWordChar r = true := stops_of_isDelimited isSolid_isWordChar hr
  rcases hs with hs | ⟨w, v, hw, hv, rfl⟩
  · have hpoint : ∀ t, r ≠ '.' :: t := by
      rintro t rfl
      cases hr
    unfold name?
    rw [run?_append_of_stops hs hstop]
    split
    · rename_i h
      cases h
    · rename_i h
      injection h with h
      injection h with _ h
      exact absurd h (hpoint _)
    · rename_i h
      cases h
      rfl
  · have hpoint : stops isWordChar ('.' :: (v ++ r)) = true := rfl
    unfold name?
    rw [List.append_assoc, List.cons_append, run?_append_of_stops hw hpoint]
    simp only [run?_append_of_stops hv hstop]

/-- What is read as a run is one. -/
theorem isRun_of_run? {p : Char → Bool} {s w r : List Char} (h : run? p s = some (w, r)) : IsRun p w := by
  refine ⟨run?_ne_nil h, ?_⟩
  unfold run? spanOf at h
  split at h
  · cases h
  · rename_i heq
    cases h
    injection heq with h1 _
    intro c hc
    rw [← h1] at hc
    exact List.all_eq_true.mp List.all_takeWhile c hc

/-- The name at the start of a text is a name, and no letter of a word stands after it. -/
theorem isName_of_name? {s w r : List Char} (h : name? s = some (w, r)) : IsName w := by
  unfold name? at h
  split at h
  · cases h
  · rename_i hw
    split at h
    · rename_i hv
      cases h
      exact .inr ⟨_, _, isRun_of_run? hw, isRun_of_run? hv, rfl⟩
    · cases h
      exact .inl (isRun_of_run? hw)
  · rename_i hw
    cases h
    exact .inl (isRun_of_run? hw)

/-! ## 4. Languages of plain tokens -/

/-- Digits of any script, with a point and any digits if they follow; or a point and at least one digit. -/
def IsAmount (s : List Char) : Prop :=
  (∃ w, IsRun Text.isDecimal w ∧ (s = w ∨ ∃ v, (∀ c ∈ v, Text.isDecimal c = true) ∧ s = w ++ '.' :: v)) ∨
    ∃ v, IsRun Text.isDecimal v ∧ s = '.' :: v

/-- Figures after an optional plus and, where `signed`, an optional minus. -/
def IsInteger (signed : Bool) (s : List Char) : Prop :=
  ∃ w, IsRun Text.isDigit w ∧ (s = w ∨ s = '+' :: w ∨ (signed = true ∧ s = '-' :: w))

/-- Hexadecimal digits, with `0x` in front or without it. -/
def IsHex (s : List Char) : Prop := ∃ w, IsRun Text.isHexDigit w ∧ (s = w ∨ s = '0' :: 'x' :: w)

/-- The word for a truth value, which is its value as an argument. -/
def truthWord (b : Bool) : List Char := (if b then "true" else "false").toList

/-- A truth value, as its word in any case or as a figure. -/
def IsTruth (b : Bool) (s : List Char) : Prop :=
  s.map foldCase = truthWord b ∨ s = [if b then '1' else '0']

theorem amount?_append {s r : List Char} (hs : IsAmount s) (hr : isDelimited r = true) :
    amount? (s ++ r) = some (s, r) := by
  have hstop : stops Text.isDecimal r = true := stops_of_isDelimited isSolid_isDecimal hr
  have hpoint : ∀ t, stops Text.isDecimal ('.' :: t) = true := by
    intro t
    show (!Text.isDecimal '.') = true
    decide
  -- Figures alone, figures with a fraction, or a fraction alone.
  rcases hs with ⟨w, hw, rfl | ⟨v, hv, rfl⟩⟩ | ⟨v, hv, rfl⟩
  · have hne : ∀ t, r ≠ '.' :: t := by
      rintro t rfl
      cases hr
    unfold amount?
    rw [run?_append_of_stops hw hstop]
    split
    · rename_i h
      injection h with h
      injection h with _ h
      exact absurd h (hne _)
    · rename_i h
      cases h
      rfl
    · rename_i h _
      cases h
    · rename_i h _
      cases h
  · unfold amount?
    rw [List.append_assoc, List.cons_append, run?_append_of_stops hw (hpoint _)]
    simp only [spanOf_append_of_stops hv hstop]
  · unfold amount?
    rw [List.cons_append, run?_eq_none_of_stops (hpoint _)]
    simp only [run?_append_of_stops hv hstop, Option.map_some]

/-- What is read as an amount is one. -/
theorem isAmount_of_amount? {s w r : List Char} (h : amount? s = some (w, r)) : IsAmount w := by
  unfold amount? at h
  split at h
  · rename_i w r hw
    simp only [Option.some.injEq, Prod.mk.injEq] at h
    exact .inl ⟨w, isRun_of_run? hw, .inr ⟨_, fun c hc => List.all_eq_true.mp List.all_takeWhile c hc, h.1.symm⟩⟩
  · rename_i hw
    cases h
    exact .inl ⟨_, isRun_of_run? hw, .inl rfl⟩
  · rename_i r _
    obtain ⟨⟨v, t⟩, hv, heq⟩ := Option.map_eq_some_iff.mp h
    simp only [Prod.mk.injEq] at heq
    exact .inr ⟨v, isRun_of_run? hv, heq.1.symm⟩
  · cases h

/-- A sign is no figure. -/
theorem sign_of_isDigit {c : Char} (hc : Text.isDigit c = true) : c ≠ '+' ∧ c ≠ '-' := by
  constructor
  · rintro rfl
    cases hc
  · rintro rfl
    cases hc

theorem integer?_append {signed : Bool} {s r : List Char} (hs : IsInteger signed s) (hr : isDelimited r = true) :
    integer? signed (s ++ r) = some (s, r) := by
  have hstop : stops Text.isDigit r = true := stops_of_isDelimited isSolid_isDigit hr
  obtain ⟨w, hw, rfl | rfl | ⟨hsigned, rfl⟩⟩ := hs
  · cases s with
    | nil => exact absurd rfl hw.1
    | cons c t =>
      have hc := sign_of_isDigit (hw.2 c (by simp))
      have hsign : ¬ (c = '+' ∨ (c = '-' ∧ signed = true)) := by
        rintro (h | ⟨h, _⟩)
        · exact hc.1 h
        · exact hc.2 h
      unfold integer?
      simp only [List.cons_append]
      rw [if_neg hsign, ← List.cons_append, run?_append_of_stops hw hstop]
  · rw [List.cons_append, integer?, if_pos (.inl rfl), run?_append_of_stops hw hstop]
    rfl
  · rw [List.cons_append, integer?, if_pos (.inr ⟨rfl, hsigned⟩), run?_append_of_stops hw hstop]
    rfl

theorem hex?_append {s r : List Char} (hs : IsHex s) (hr : isDelimited r = true) : hex? (s ++ r) = some (s, r) := by
  have hstop : stops Text.isHexDigit r = true := stops_of_isDelimited isSolid_isHexDigit hr
  obtain ⟨w, hw, rfl | rfl⟩ := hs
  · have hmark : ∀ t, s ++ r ≠ '0' :: 'x' :: t := by
      intro t h
      match s, hw with
      | [], hw => exact hw.1 rfl
      | [c], _ =>
        injection h with _ h
        change r = 'x' :: t at h
        rw [h] at hr
        cases hr
      | c :: d :: u, hw =>
        injection h with _ h
        injection h with h _
        have hd := hw.2 d (by simp)
        rw [h] at hd
        cases hd
    unfold hex?
    split
    · rename_i h
      exact absurd h (hmark _)
    · exact run?_append_of_stops hw hstop
  · unfold hex?
    simp only [List.cons_append, run?_append_of_stops hw hstop]

theorem dropWord?_append {w s r : List Char} (h : s.map foldCase = w) : dropWord? w (s ++ r) = some r := by
  induction w generalizing s with
  | nil =>
    rw [List.map_eq_nil_iff.mp h]
    rfl
  | cons c w ih =>
    obtain ⟨d, t, rfl, hd, ht⟩ := List.map_eq_cons_iff.mp h
    rw [List.cons_append, dropWord?, if_pos hd]
    exact ih ht

theorem dropWord?_cons_of_ne {c d : Char} {w s : List Char} (h : foldCase d ≠ c) : dropWord? (c :: w) (d :: s) = none := by
  rw [dropWord?, if_neg h]

theorem bool?_zero (r : List Char) : bool? ('0' :: r) = some (false, r) := by
  have hf : dropWord? "false".toList ('0' :: r) = none := dropWord?_cons_of_ne (by decide)
  have ht : dropWord? "true".toList ('0' :: r) = none := dropWord?_cons_of_ne (by decide)
  unfold bool?
  simp only [hf, ht]

theorem bool?_one (r : List Char) : bool? ('1' :: r) = some (true, r) := by
  have hf : dropWord? "false".toList ('1' :: r) = none := dropWord?_cons_of_ne (by decide)
  have ht : dropWord? "true".toList ('1' :: r) = none := dropWord?_cons_of_ne (by decide)
  unfold bool?
  simp only [hf, ht]

theorem bool?_append {b : Bool} {s : List Char} (hs : IsTruth b s) (r : List Char) : bool? (s ++ r) = some (b, r) := by
  cases b with
  | false =>
    rcases hs with hs | rfl
    · unfold bool?
      rw [show "false".toList = truthWord false from rfl, dropWord?_append hs]
    · exact bool?_zero r
  | true =>
    rcases hs with hs | rfl
    · obtain ⟨d, t, rfl, hd, ht⟩ := List.map_eq_cons_iff.mp (show s.map foldCase = 't' :: "rue".toList from hs)
      have hf : dropWord? "false".toList (d :: t ++ r) = none := dropWord?_cons_of_ne (by rw [hd]; decide)
      unfold bool?
      rw [hf, show "true".toList = truthWord true from rfl, dropWord?_append hs]
    · exact bool?_one r

/-! ## 5. Quoted strings -/

namespace Quoted

/-- A character of a string between quotes, behind a backslash if it is one or a quote mark. -/
def escape (c : Char) : List Char := if isEscapable c then ['\\', c] else [c]

/-- A string in quotes. -/
def write (quote : Char) (s : List Char) : List Char := quote :: (s.flatMap escape ++ [quote])

/-- A quote mark of either sort. -/
def IsQuote (c : Char) : Prop := c = '"' ∨ c = '\''

theorem isEscapable_of_isQuote {c : Char} (h : IsQuote c) : isEscapable c = true := by
  rcases h with rfl | rfl <;> decide

theorem readRest?_escape {quote : Char} (hq : IsQuote quote) (c : Char) (s : List Char) :
    readRest? quote false (escape c ++ s) = (readRest? quote false s).map fun (v, t) => (c :: v, t) := by
  unfold escape
  by_cases hc : isEscapable c = true
  · rw [if_pos hc]
    show readRest? quote false ('\\' :: c :: s) = _
    rw [readRest?, if_pos rfl, readRest?, if_pos hc]
  · rw [if_neg hc]
    have hback : c ≠ '\\' := by
      rintro rfl
      exact hc (by decide)
    have hquote : c ≠ quote := by
      rintro rfl
      exact hc (isEscapable_of_isQuote hq)
    show readRest? quote false (c :: s) = _
    rw [readRest?, if_neg hback, if_neg hquote]

/-- A string is read back from its quoted form, whatever follows it. -/
theorem read?_write {quote : Char} (hq : IsQuote quote) (s r : List Char) :
    read? (write quote s ++ r) = some (s, r) := by
  have hback : quote ≠ '\\' := by
    rcases hq with rfl | rfl <;> decide
  have hbody : readRest? quote false (s.flatMap escape ++ ([quote] ++ r)) = some (s, r) := by
    induction s with
    | nil =>
      show readRest? quote false (quote :: r) = _
      rw [readRest?, if_neg hback, if_pos rfl]
    | cons c s ih =>
      rw [List.flatMap_cons, List.append_assoc, readRest?_escape hq, ih]
      rfl
  show readRest? quote false (s.flatMap escape ++ [quote] ++ r) = _
  rw [List.append_assoc]
  exact hbody

end Quoted

/-! ## 6. Tokens of all kinds -/

/-- A token is written for a value of a kind. A string is written in quotes of either sort, a truth value in any of its
spellings, and every other value as it is. -/
def Kind.Denotes (kind : Kind) (token value : List Char) : Prop :=
  match kind with
  | .address | .base58Bytes => token = value ∧ IsRun Base58.isDigit value
  | .string | .commandName | .file => ∃ quote, Quoted.IsQuote quote ∧ token = Quoted.write quote value
  | .amount => token = value ∧ IsAmount value
  | .int => token = value ∧ IsInteger true value
  | .uint => token = value ∧ IsInteger false value
  | .bool => ∃ b, IsTruth b token ∧ value = truthWord b
  | .hexBytes => token = value ∧ IsHex value

theorem string?_write {quote : Char} (hq : Quoted.IsQuote quote) (s r : List Char) :
    string? (Quoted.write quote s ++ r) = .ok (s, r) := by
  have hread := Quoted.read?_write hq s r
  have hmark : quote = '"' ∨ quote = '\'' := hq
  rw [show Quoted.write quote s ++ r = quote :: (s.flatMap Quoted.escape ++ [quote] ++ r) from rfl] at *
  rw [string?, if_pos hmark, hread]

/-- A delimited token is read back as the value that it was written for. -/
theorem Kind.read_of_denotes {kind : Kind} {token value r : List Char} (h : kind.Denotes token value)
    (hr : isDelimited r = true) : kind.read (token ++ r) = .ok (value, r) := by
  cases kind <;> simp only [Kind.Denotes] at h <;> unfold Kind.read
  case address | base58Bytes =>
    obtain ⟨rfl, hv⟩ := h
    rw [run?_append_of_stops hv (stops_of_isDelimited isSolid_base58 hr)]
    rfl
  case string | commandName | file =>
    obtain ⟨quote, hq, rfl⟩ := h
    exact string?_write hq value r
  case amount =>
    obtain ⟨rfl, hv⟩ := h
    rw [amount?_append hv hr]
    rfl
  case int | uint =>
    obtain ⟨rfl, hv⟩ := h
    rw [integer?_append hv hr]
    rfl
  case bool =>
    obtain ⟨b, hb, rfl⟩ := h
    rw [bool?_append hb]
    rfl
  case hexBytes =>
    obtain ⟨rfl, hv⟩ := h
    rw [hex?_append hv hr]
    rfl

/-- A text that starts with a character which is no delimiter. -/
def Starts (s : List Char) : Prop := ∃ c r, s = c :: r ∧ isDelimiter c = false

theorem IsRun.starts {p : Char → Bool} (hp : IsSolid p) {s : List Char} (hs : IsRun p s) : Starts s := by
  cases s with
  | nil => exact absurd rfl hs.1
  | cons c r =>
    refine ⟨c, r, rfl, ?_⟩
    cases hd : isDelimiter c with
    | false => rfl
    | true =>
      have hc := hs.2 c (by simp)
      rw [hp c hd] at hc
      cases hc

theorem Starts.append {s : List Char} (hs : Starts s) (r : List Char) : Starts (s ++ r) := by
  obtain ⟨c, t, rfl, hc⟩ := hs
  exact ⟨c, t ++ r, rfl, hc⟩

theorem IsName.starts {s : List Char} (hs : IsName s) : Starts s := by
  rcases hs with hs | ⟨w, v, hw, _, rfl⟩
  · exact hs.starts isSolid_isWordChar
  · exact (hw.starts isSolid_isWordChar).append _

theorem IsTruth.starts {b : Bool} {s : List Char} (hs : IsTruth b s) : Starts s := by
  have hfold : ∀ c, isDelimiter c = true → foldCase c ≠ 't' ∧ foldCase c ≠ 'f' := fun _ =>
    forall_delimiter (P := fun c => foldCase c ≠ 't' ∧ foldCase c ≠ 'f') (by decide)
  rcases hs with hs | rfl
  · have hword : ∃ d w, truthWord b = d :: w ∧ (d = 't' ∨ d = 'f') := by
      cases b
      · exact ⟨'f', "alse".toList, rfl, .inr rfl⟩
      · exact ⟨'t', "rue".toList, rfl, .inl rfl⟩
    obtain ⟨d, w, hw, hd⟩ := hword
    rw [hw] at hs
    obtain ⟨c, t, rfl, hc, _⟩ := List.map_eq_cons_iff.mp hs
    refine ⟨c, t, rfl, ?_⟩
    cases hdel : isDelimiter c with
    | false => rfl
    | true =>
      rw [← hc] at hd
      rcases hd with hd | hd
      · exact absurd hd (hfold c hdel).1
      · exact absurd hd (hfold c hdel).2
  · refine ⟨_, [], rfl, ?_⟩
    cases b <;> decide

/-- A token starts with neither a blank nor a separator. -/
theorem Kind.Denotes.starts {kind : Kind} {token value : List Char} (h : kind.Denotes token value) :
    Starts token := by
  cases kind <;> simp only [Kind.Denotes] at h
  case address | base58Bytes =>
    obtain ⟨rfl, hv⟩ := h
    exact hv.starts isSolid_base58
  case string | commandName | file =>
    obtain ⟨quote, hq, rfl⟩ := h
    refine ⟨quote, _, rfl, ?_⟩
    rcases hq with rfl | rfl <;> decide
  case amount =>
    obtain ⟨rfl, ⟨w, hw, rfl | ⟨v, _, rfl⟩⟩ | ⟨v, _, rfl⟩⟩ := h
    · exact hw.starts isSolid_isDecimal
    · exact (hw.starts isSolid_isDecimal).append _
    · exact ⟨'.', v, rfl, by decide⟩
  case int | uint =>
    obtain ⟨rfl, w, hw, rfl | rfl | ⟨_, rfl⟩⟩ := h
    · exact hw.starts isSolid_isDigit
    · exact ⟨'+', w, rfl, by decide⟩
    · exact ⟨'-', w, rfl, by decide⟩
  case bool =>
    obtain ⟨b, hb, _⟩ := h
    exact hb.starts
  case hexBytes =>
    obtain ⟨rfl, w, hw, rfl | rfl⟩ := h
    · exact hw.starts isSolid_isHexDigit
    · exact ⟨'0', _, rfl, by decide⟩

/-! ## 7. What is left of a text -/

theorem run?_suffix {p : Char → Bool} {s w r : List Char} (h : run? p s = some (w, r)) : r <:+ s :=
  ⟨w, run?_append h⟩

theorem amount?_suffix {s w r : List Char} (h : amount? s = some (w, r)) : r <:+ s := by
  unfold amount? at h
  split at h
  · rename_i hw
    cases h
    exact ((List.dropWhile_suffix _).trans (List.suffix_cons _ _)).trans (run?_suffix hw)
  · rename_i hw
    cases h
    exact run?_suffix hw
  · obtain ⟨⟨v, t⟩, hv, hvt⟩ := Option.map_eq_some_iff.mp h
    cases hvt
    exact (run?_suffix hv).trans (List.suffix_cons _ _)
  · cases h

theorem integer?_suffix {signed : Bool} {s w r : List Char} (h : integer? signed s = some (w, r)) : r <:+ s := by
  unfold integer? at h
  split at h
  · split at h
    · obtain ⟨⟨v, t⟩, hv, hvt⟩ := Option.map_eq_some_iff.mp h
      cases hvt
      exact (run?_suffix hv).trans (List.suffix_cons _ _)
    · exact run?_suffix h
  · cases h

theorem hex?_suffix {s w r : List Char} (h : hex? s = some (w, r)) : r <:+ s := by
  unfold hex? at h
  split at h
  · split at h
    · rename_i hv
      cases h
      exact (run?_suffix hv).trans ((List.suffix_cons _ _).trans (List.suffix_cons _ _))
    · exact run?_suffix h
  · exact run?_suffix h

theorem dropWord?_suffix {w s r : List Char} (h : dropWord? w s = some r) : r <:+ s := by
  induction w generalizing s with
  | nil =>
    cases h
    exact List.suffix_rfl
  | cons c w ih =>
    cases s with
    | nil => cases h
    | cons d s =>
      unfold dropWord? at h
      split at h
      · exact (ih h).trans (List.suffix_cons _ _)
      · cases h

theorem bool?_suffix {s r : List Char} {b : Bool} (h : bool? s = some (b, r)) : r <:+ s := by
  unfold bool? at h
  split at h
  · rename_i hw
    cases h
    exact dropWord?_suffix hw
  · rename_i hw
    cases h
    exact dropWord?_suffix hw
  · cases h
    exact List.suffix_cons _ _
  · cases h
    exact List.suffix_cons _ _
  · cases h

theorem Quoted.readRest?_suffix {quote : Char} {s v r : List Char} {escaped : Bool}
    (h : Quoted.readRest? quote escaped s = some (v, r)) : r <:+ s := by
  induction s generalizing v escaped with
  | nil => cases escaped <;> cases h
  | cons c t ih =>
    -- Whatever is put in front of the rest of the value, the text that is left is the same.
    have hmap : ∀ f : List Char → List Char,
        (Quoted.readRest? quote false t).map (fun (u, w) => (f u, w)) = some (v, r) → r <:+ c :: t := by
      intro f hv
      obtain ⟨⟨u, w⟩, hu, hw⟩ := Option.map_eq_some_iff.mp hv
      cases hw
      exact (ih hu).trans (List.suffix_cons _ _)
    cases escaped with
    | true =>
      unfold Quoted.readRest? at h
      split at h
      · exact hmap (c :: ·) h
      · split at h
        · cases h
          exact List.suffix_cons _ _
        · exact hmap ('\\' :: c :: ·) h
    | false =>
      unfold Quoted.readRest? at h
      split at h
      · exact (ih h).trans (List.suffix_cons _ _)
      · split at h
        · cases h
          exact List.suffix_cons _ _
        · exact hmap (c :: ·) h

theorem string?_suffix {s w r : List Char} (h : string? s = .ok (w, r)) : r <:+ s := by
  unfold string? at h
  split at h
  · cases h
  · split at h
    · split at h
      · rename_i hq
        cases h
        exact (Quoted.readRest?_suffix hq).trans (List.suffix_cons _ _)
      · cases h
    · split at h
      · rename_i hr
        cases h
        exact run?_suffix hr
      · cases h

/-- A token stands at the start of the text that it is read from. -/
theorem Kind.read_suffix {kind : Kind} {s w r : List Char} (h : kind.read s = .ok (w, r)) : r <:+ s := by
  cases kind <;> unfold Kind.read at h
  case address | base58Bytes => exact run?_suffix (orInvalid_eq_ok h)
  case string | commandName | file => exact string?_suffix h
  case amount => exact amount?_suffix (orInvalid_eq_ok h)
  case int | uint => exact integer?_suffix (orInvalid_eq_ok h)
  case hexBytes => exact hex?_suffix (orInvalid_eq_ok h)
  case bool =>
    obtain ⟨⟨b, t⟩, hb, hbt⟩ := Option.map_eq_some_iff.mp (orInvalid_eq_ok h)
    cases hbt
    exact bool?_suffix hb

end ContractShell.Command
