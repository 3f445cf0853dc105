import ContractShell.Proofs.Number.Numeral
import ContractShell.Proofs.Text.Lines
import ContractShell.Proofs.Value.HexText
import ContractShell.Session.Input
import Mathlib.Algebra.Ring.Int.Defs

/-!
The spellings of entry points.

An entry point is a number, or the text of one: decimal, or hexadecimal behind a mark. The digits may stand behind any
number of zeros, letters may be in either case, and blanks may stand around. All spellings of an integer are read alike, in
documents and in the arguments of raw calls.

## Main statements

* `Integer.readDigits_of_values`: digits of a base are read as their positional value.
* `Integer.exists_values`: that is the number of which they are the digits.
* `Integer.read_of_isDigitsOf`: the integer that digits behind a sign and a mark denote.
* `EntryPoint.numberOf?_of_spells`: every spelling of an integer denotes it.
* `EntryPoint.spellings_read_alike`: so it is an entry point just when it fits its bits, and raw calls take the same texts.
-/

namespace ContractShell

namespace Integer

/-- The digits of a number in a base, letters in either case, behind any number of zeros. -/
def IsDigitsOf (base n : Nat) (s : List Char) : Prop :=
  ∃ zeros digits, s = List.replicate zeros '0' ++ digits ∧ digits.map Char.toLower = Nat.toDigits base n

/-- The number that digits denote whose values are given, behind digits that denote `start`. -/
def positional (base start : Nat) (values : List Nat) : Nat := values.foldl (fun v d => v * base + d) start

/-! ## 1. Values of digits -/

/-- Between the figures and the digits of the next script no character is a decimal digit. -/
theorem decimal?_eq_none {c : Char} (hlow : 57 < c.toNat) (hhigh : c.toNat < 0x660) : Text.decimal? c = none := by
  have hzeros : ∀ z ∈ Text.decimalZeros, z = 0x30 ∨ 0x660 ≤ z := by decide
  have hfind : Text.decimalZeros.find? (fun z => decide (z ≤ c.toNat) && decide (c.toNat < z + 10)) = none := by
    refine List.find?_eq_none.mpr fun z hz => ?_
    simp only [Bool.and_eq_true, decide_eq_true_eq]
    have := hzeros z hz
    omega
  simp only [Text.decimal?, hfind, Option.map_none]

theorem digitIn?_of_hexDigit? {base d : Nat} {c : Char} (hd : d < base) (hc : Text.hexDigit? c = some d) :
    Text.digitIn? base c = some d := by
  unfold Text.digitIn?
  -- A figure counts as a decimal digit in every base. A letter is a digit in no script, and has its value from its place.
  by_cases hfigure : Text.isDigit c = true
  · rw [decimal?_of_isDigit hfigure]
    simp only [Text.hexDigit?, Text.isDigit] at hc hfigure
    rw [if_pos hfigure, Option.some.injEq] at hc
    simp only [hc, if_pos hd]
  · have hletter : (97 ≤ c.toNat ∧ c.toNat ≤ 102) ∨ (65 ≤ c.toNat ∧ c.toNat ≤ 70) := by
      simp only [Text.hexDigit?, Text.isDigit] at hc hfigure
      rw [if_neg hfigure] at hc
      split at hc
      · simp_all
      · split at hc
        · simp_all
        · cases hc
    rw [decimal?_eq_none (by omega) (by omega), hc]
    simp only [Option.filter_some, decide_eq_true hd, if_true]

theorem hexDigit?_of_toLower {c : Char} {d : Nat} (hd : d < 16) (hc : c.toLower = Nat.digitChar d) :
    Text.hexDigit? c = some d := by
  have hall : ∀ d : Fin 16, Nat.digitChar d.val = Text.hexChar d.val := by decide
  exact Hex.hexDigit?_eq_some_iff.mpr ⟨hd, hc.trans (hall ⟨d, hd⟩)⟩

section

variable {base n : Nat} {s : List Char}

/-- Digits of a base, with their values. -/
def HaveValues (base : Nat) (s : List Char) (values : List Nat) : Prop :=
  List.Forall₂ (fun c d => d < base ∧ Text.hexDigit? c = some d) s values

theorem readDigits_of_values {values : List Nat} (h : HaveValues base s values) (count start : Nat) :
    readDigits base s false count start = some (count + s.length, positional base start values, []) := by
  induction h generalizing count start with
  | nil => simp [readDigits, positional]
  | @cons c d s values hc _ ih =>
    -- Only an underscore is passed over, and that has no value.
    have hmark : c ≠ '_' := by
      rintro rfl
      cases hc.2
    rw [readDigits, if_neg hmark, digitIn?_of_hexDigit? hc.1 hc.2]
    simp only [ih]
    rw [List.length_cons, Nat.add_assoc, Nat.add_comm 1]
    rfl

/-- The positional value of a number's digits is the number. -/
theorem exists_values (hbase : 1 < base) (hsmall : base ≤ 16) (hs : s.map Char.toLower = Nat.toDigits base n) :
    ∃ values, HaveValues base s values ∧ positional base 0 values = n := by
  -- The last digit comes off the end of the digits, and the rest are those of the quotient.
  induction n using Nat.strongRecOn generalizing s with
  | ind n ih =>
    rw [Nat.toDigits_eq_if hbase] at hs
    by_cases hn : n < base
    · rw [if_pos hn] at hs
      obtain ⟨c, t, rfl, hc, ht⟩ := List.map_eq_cons_iff.mp hs
      obtain rfl := List.map_eq_nil_iff.mp ht
      refine ⟨[n], .cons ⟨hn, hexDigit?_of_toLower (by omega) hc⟩ .nil, ?_⟩
      simp [positional]
    · rw [if_neg hn] at hs
      obtain ⟨init, last, rfl, hinit, hlast⟩ := List.map_eq_append_iff.mp hs
      obtain ⟨c, t, rfl, hc, ht⟩ := List.map_eq_cons_iff.mp hlast
      obtain rfl := List.map_eq_nil_iff.mp ht
      obtain ⟨values, hvalues, hsum⟩ := ih (n / base) (Nat.div_lt_self (by omega) hbase) hinit
      have hmod : n % base < base := Nat.mod_lt n (by omega)
      refine ⟨values ++ [n % base], ?_, ?_⟩
      · exact List.rel_append hvalues (.cons ⟨hmod, hexDigit?_of_toLower (by omega) hc⟩ .nil)
      · rw [positional, List.foldl_append]
        show positional base 0 values * base + n % base = n
        rw [hsum, Nat.div_add_mod']

/-- Zeros in front of digits add nothing. -/
theorem IsDigitsOf.exists_values (hbase : 1 < base) (hsmall : base ≤ 16) (h : IsDigitsOf base n s) :
    ∃ values, HaveValues base s values ∧ positional base 0 values = n := by
  obtain ⟨zeros, digits, rfl, hdigits⟩ := h
  induction zeros with
  | zero => exact Integer.exists_values hbase hsmall hdigits
  | succ zeros ih =>
    obtain ⟨values, hvalues, hsum⟩ := ih
    refine ⟨0 :: values, .cons ⟨by omega, rfl⟩ hvalues, ?_⟩
    rw [positional, List.foldl_cons, Nat.zero_mul]
    exact hsum

theorem HaveValues.isHexDigit {values : List Nat} (h : HaveValues base s values) : ∀ c ∈ s, Text.isHexDigit c = true := by
  intro c hc
  obtain ⟨d, -, -, hd⟩ := forall₂_mem_right h hc
  rw [Text.isHexDigit, hd]
  rfl

theorem IsDigitsOf.isRun (hbase : 1 < base) (hsmall : base ≤ 16) (h : IsDigitsOf base n s) :
    Command.IsRun Text.isHexDigit s := by
  obtain ⟨values, hvalues, -⟩ := h.exists_values hbase hsmall
  obtain ⟨zeros, digits, rfl, hdigits⟩ := h
  refine ⟨fun hnil => ?_, hvalues.isHexDigit⟩
  rw [(List.append_eq_nil_iff.mp hnil).2] at hdigits
  exact Nat.toDigits_ne_nil hdigits.symm

/-- The digits of base ten are the figures. -/
theorem IsDigitsOf.isDigit (h : IsDigitsOf 10 n s) : ∀ c ∈ s, Text.isDigit c = true := by
  intro c hc
  obtain ⟨values, hvalues, -⟩ := h.exists_values (by decide) (by decide)
  obtain ⟨d, -, hlt, hd⟩ := forall₂_mem_right hvalues hc
  simp only [Text.hexDigit?, Bool.and_eq_true, decide_eq_true_eq] at hd
  simp only [Text.isDigit, Bool.and_eq_true, decide_eq_true_eq]
  split at hd
  · assumption
  · split at hd
    · cases hd
      omega
    · split at hd <;> cases hd
      omega

/-! ## 2. Numerals -/

/-- The mark of base sixteen is dropped, whichever case its letter is in. -/
theorem dropMarkOf_mark {mark : Char} (hmark : mark = 'x' ∨ mark = 'X') (hs : ∀ c ∈ s, Text.isHexDigit c = true) :
    dropMarkOf 16 ('0' :: mark :: s) = s := by
  show dropMark 'x' ('0' :: mark :: s) = s
  unfold dropMark
  split
  · rename_i h
    obtain rfl := (List.cons.inj (List.cons.inj h).2).2
    exact absurd (hs '_' (by simp)) (by decide)
  · rename_i h
    obtain ⟨rfl, rfl⟩ := List.cons.inj (List.cons.inj h).2
    exact if_pos hmark
  · rename_i h
    exact absurd rfl (h _ _)

/-- The integer that digits behind a sign and a mark denote. -/
theorem read_of_isDigitsOf {text : String} {negative : Bool} {marked : List Char} (hbase : 1 < base) (hsmall : base ≤ 16)
    (hsign : readSign (Text.trimBy isEdge text.toList) = (negative, marked)) (hmark : dropMarkOf base marked = s)
    (hdigits : IsDigitsOf base n s) (hshort : base = 10 → s.length ≤ maxDigits) :
    read base text = .ok (if negative then -(n : Int) else n) := by
  obtain ⟨hne, hhex⟩ := hdigits.isRun hbase hsmall
  obtain ⟨values, hvalues, hsum⟩ := hdigits.exists_values hbase hsmall
  -- Each reason to refuse the digits is ruled out: a separator in front, too many of them, none, or something else behind.
  have hunderscore : s.head? ≠ some '_' := by
    intro hhead
    exact absurd (hhex '_' (List.mem_of_mem_head? hhead)) (by decide)
  have hlong : ¬ (base = 10 ∧ maxDigits < s.length) := fun h => Nat.not_lt.mpr (hshort h.1) h.2
  have hwhole : ¬ (s.length = 0 ∨ ([] : List Char) ≠ []) := by
    rintro (hnone | hrest)
    · exact hne (List.length_eq_zero_iff.mp hnone)
    · exact hrest rfl
  -- All of the digits are read, and nothing is left behind them.
  unfold read
  simp only [hsign, hmark]
  rw [if_neg hunderscore, readDigits_of_values hvalues 0 0]
  simp only [Nat.zero_add, if_neg hlong, if_neg hwhole, hsum]

end

end Integer

namespace EntryPoint

/-! ## 3. Spellings -/

/-- A text with nothing but blanks on either side of a numeral. -/
def HasNumeral (text : String) (numeral : List Char) : Prop :=
  ∃ before after, (∀ c ∈ before, Text.isBlank c = true) ∧ (∀ c ∈ after, Text.isBlank c = true) ∧
    text.toList = before ++ numeral ++ after

/-- A value spells an integer: it is the integer, or a text of its decimal numeral, and neither is too long; or it is a text
of the hexadecimal numeral of one that is not negative. -/
inductive Spells (n : Int) : Json → Prop where
  | number (hshort : Integer.isWritable n = true) : Spells n (.int n)
  | decimal {digits : List Char} {text : String} (hdigits : Integer.IsDigitsOf 10 n.natAbs digits)
      (hshort : digits.length ≤ Integer.maxDigits) (htext : HasNumeral text (if n < 0 then '-' :: digits else digits)) :
      Spells n (.str text)
  | hexadecimal {mark : Char} {digits : List Char} {text : String} (hsign : 0 ≤ n) (hmark : mark = 'x' ∨ mark = 'X')
      (hdigits : Integer.IsDigitsOf 16 n.natAbs digits) (htext : HasNumeral text ('0' :: mark :: digits)) :
      Spells n (.str text)

theorem not_isBlank_of_isHexDigit {c : Char} (h : Text.isHexDigit c = true) : Text.isBlank c = false := by
  cases hblank : Text.isBlank c with
  | false => rfl
  | true =>
    have hdelimiter : Command.isDelimiter c = true := by rw [Command.isDelimiter, hblank, Bool.true_or]
    rw [Command.isSolid_isHexDigit c hdelimiter] at h
    cases h

/-- What is read of a text is its numeral, in the base that the numeral is marked with. -/
theorem number?_of_hasNumeral {text : String} {numeral : List Char} (h : HasNumeral text numeral)
    (hsolid : ∀ c ∈ numeral, Text.isBlank c = false) :
    number? text = (Integer.read (if isHex numeral then 16 else 10) (String.ofList numeral)).toOption := by
  obtain ⟨before, after, hbefore, hafter, htext⟩ := h
  have htrim : Text.trimString text = String.ofList numeral := by
    rw [Text.trimString, Text.trim, htext, Text.trimBy_append hbefore hafter hsolid]
  unfold number?
  simp only [htrim, String.toList_ofList]

theorem trimBy_isEdge {numeral : List Char} (hsolid : ∀ c ∈ numeral, Text.isBlank c = false) :
    Text.trimBy Integer.isEdge (String.ofList numeral).toList = numeral := by
  rw [String.toList_ofList]
  exact Integer.trimBy_of_forall fun c hc => by rw [Integer.isEdge, hsolid c hc, Bool.false_and]

theorem isHex_of_isDigit {numeral : List Char} (h : ∀ c ∈ numeral, Text.isDigit c = true) : isHex numeral = false := by
  unfold isHex
  split
  · rename_i c r
    have hc : Text.isDigit c = true := h c (by simp)
    rw [Bool.or_eq_false_iff, decide_eq_false_iff_not, decide_eq_false_iff_not]
    constructor
    · rintro rfl
      cases hc
    · rintro rfl
      cases hc
  · rfl

theorem number?_decimal {n : Int} {digits : List Char} {text : String} (hdigits : Integer.IsDigitsOf 10 n.natAbs digits)
    (hshort : digits.length ≤ Integer.maxDigits) (htext : HasNumeral text (if n < 0 then '-' :: digits else digits)) :
    number? text = some n := by
  have hfigures := hdigits.isDigit
  have hblank : ∀ c ∈ digits, Text.isBlank c = false := fun c hc =>
    not_isBlank_of_isHexDigit ((hdigits.isRun (by decide) (by decide)).2 c hc)
  by_cases hn : n < 0
  · rw [if_pos hn] at htext
    have hsolid : ∀ c ∈ '-' :: digits, Text.isBlank c = false := List.forall_mem_cons.mpr ⟨by decide, hblank⟩
    have hread : Integer.read 10 (String.ofList ('-' :: digits)) = .ok (-(n.natAbs : Int)) :=
      Integer.read_of_isDigitsOf (by decide) (by decide) (by rw [trimBy_isEdge hsolid]; rfl) rfl hdigits fun _ => hshort
    have hbase : isHex ('-' :: digits) = false := rfl
    rw [number?_of_hasNumeral htext hsolid, hbase, if_neg (by decide), hread, Int.ofNat_natAbs_of_nonpos (by omega),
      Int.neg_neg]
    rfl
  · rw [if_neg hn] at htext
    have hread : Integer.read 10 (String.ofList digits) = .ok (n.natAbs : Int) :=
      Integer.read_of_isDigitsOf (by decide) (by decide)
        (by rw [trimBy_isEdge hblank, Integer.readSign_of_isDigit hfigures]) rfl hdigits fun _ => hshort
    rw [number?_of_hasNumeral htext hblank, isHex_of_isDigit hfigures, if_neg (by decide), hread,
      Int.natAbs_of_nonneg (by omega)]
    rfl

theorem number?_hexadecimal {n : Int} {mark : Char} {digits : List Char} {text : String} (hsign : 0 ≤ n)
    (hmark : mark = 'x' ∨ mark = 'X') (hdigits : Integer.IsDigitsOf 16 n.natAbs digits)
    (htext : HasNumeral text ('0' :: mark :: digits)) : number? text = some n := by
  have hhex := (hdigits.isRun (by decide) (by decide)).2
  have hsolid : ∀ c ∈ '0' :: mark :: digits, Text.isBlank c = false := by
    refine List.forall_mem_cons.mpr ⟨by decide, List.forall_mem_cons.mpr ⟨?_, fun c hc => ?_⟩⟩
    · rcases hmark with rfl | rfl <;> decide
    · exact not_isBlank_of_isHexDigit (hhex c hc)
  have hbase : isHex ('0' :: mark :: digits) = true := by simpa [isHex] using hmark
  have hread : Integer.read 16 (String.ofList ('0' :: mark :: digits)) = .ok (n.natAbs : Int) :=
    Integer.read_of_isDigitsOf (by decide) (by decide) (by rw [trimBy_isEdge hsolid]; rfl)
      (Integer.dropMarkOf_mark hmark hhex) hdigits (fun h => by cases h)
  rw [number?_of_hasNumeral htext hsolid, if_pos hbase, hread, Int.natAbs_of_nonneg hsign]
  rfl

theorem numberOf?_str (text : String) : numberOf? (.str text) = number? text := rfl

/-- Every spelling of an integer denotes it. -/
theorem numberOf?_of_spells {n : Int} {v : Json} (h : Spells n v) : numberOf? v = some n := by
  cases h with
  | number => rfl
  | decimal hdigits hshort htext => rw [numberOf?_str, number?_decimal hdigits hshort htext]
  | hexadecimal hsign hmark hdigits htext => rw [numberOf?_str, number?_hexadecimal hsign hmark hdigits htext]

/-! ## 4. Entry points -/

/-- A spelling of an integer is an entry point if the integer fits its bits, and out of range otherwise. -/
theorem read_of_spells {n : Int} {v : Json} (h : Spells n v) :
    read (some v) = if 0 ≤ n ∧ n < 2 ^ 32 then .ok n.toNat else .error (.outOfRange v.shown) := by
  have hrange : (0 ≤ n ∧ n ≤ largest) ↔ (0 ≤ n ∧ n < 2 ^ 32) := by
    unfold largest
    omega
  -- No spelling is one of the values that count as missing.
  have hread : read (some v) = if 0 ≤ n ∧ n ≤ largest then .ok n.toNat else .error (.outOfRange v.shown) := by
    have hnumber := numberOf?_of_spells h
    cases h <;> simp only [read, hnumber]
  rw [hread]
  simp only [hrange]

/-- All spellings of an integer are entry points of its value if it fits thirty-two bits, and out of range otherwise. Raw
calls take just the texts that are entry points, for the same values. -/
theorem spellings_read_alike :
    (∀ (n : Int) (v : Json), Spells n v →
      read (some v) = if 0 ≤ n ∧ n < 2 ^ 32 then .ok n.toNat else .error (.outOfRange v.shown)) ∧
      ∀ text : String,
        (∀ m, Session.entryPoint text = .ok m ↔ read (some (.str text)) = .ok m) ∧
          ((∀ m, read (some (.str text)) ≠ .ok m) → Session.entryPoint text = .error (.entryPoint text)) := by
  refine ⟨fun n v => read_of_spells, fun text => ?_⟩
  unfold Session.entryPoint
  cases read (some (.str text)) with
  | ok m => exact ⟨fun k => by simp [Except.mapError], fun h => absurd rfl (h m)⟩
  | error f => exact ⟨fun m => iff_of_false (fun h => by cases h) (fun h => by cases h), fun _ => rfl⟩

/-- A hexadecimal numeral with zeros in front, letters in both cases and blanks around it. -/
theorem spellings_read_alike_mixed :
    Spells 255 (.str "\t0X00fF ") ∧ read (some (.str "\t0X00fF ")) = .ok 255 ∧
      Session.entryPoint "\t0X00fF " = .ok 255 := by
  have hdigits : Integer.IsDigitsOf 16 (255 : Int).natAbs ['0', '0', 'f', 'F'] := ⟨2, ['f', 'F'], rfl, by decide⟩
  have hspells : Spells 255 (.str "\t0X00fF ") :=
    .hexadecimal (by decide) (.inr rfl) hdigits ⟨['\t'], [' '], List.all_eq_true.mp rfl, List.all_eq_true.mp rfl, rfl⟩
  have hread : read (some (.str "\t0X00fF ")) = .ok 255 := spellings_read_alike.1 255 _ hspells
  exact ⟨hspells, hread, ((spellings_read_alike.2 _).1 255).mpr hread⟩

end EntryPoint

end ContractShell
