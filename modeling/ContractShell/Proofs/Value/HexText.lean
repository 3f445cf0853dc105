import ContractShell.Proofs.Command.Spelling
import ContractShell.Proofs.Value.Typing

/-!
Which texts stand for bytes, and which of them are shown.

Bytes are shown as a mark and two digits each. Digits are read in either case, an even number of them, behind the mark or
without it. The mark alone is not read, and no bytes are shown as just that.

## Main statements

* `Hex.decode?_eq_some_iff`: the digits that stand for bytes.
* `bytesOfHexText_eq_ok_iff`: the texts that stand for bytes.
* `entersAgain_iff`: which bytes are read back from what they are shown as, and which texts are read just when they have the
  form of shown ones.
* `not_entersAgain_nil`: the mark alone.
-/

namespace ContractShell

/-! ## 1. Digits -/

namespace Hex

theorem toNat_toLower (c : Char) : c.toLower.toNat = if 65 ≤ c.toNat ∧ c.toNat ≤ 90 then c.toNat + 32 else c.toNat := by
  have hrange : (c.val ≥ 'A'.val ∧ c.val ≤ 'Z'.val) ↔ 65 ≤ c.toNat ∧ c.toNat ≤ 90 := by
    rw [ge_iff_le, UInt32.le_iff_toNat_le, UInt32.le_iff_toNat_le]
    exact Iff.rfl
  unfold Char.toLower
  by_cases h : c.val ≥ 'A'.val ∧ c.val ≤ 'Z'.val
  · have hsmall := (hrange.mp h).2
    rw [dif_pos h, if_pos (hrange.mp h)]
    show (c.val + 32).toNat = c.toNat + 32
    rw [UInt32.toNat_add]
    show (c.toNat + 32) % 2 ^ 32 = c.toNat + 32
    omega
  · rw [dif_neg h, if_neg (hrange.not.mp h)]

theorem toNat_hexChar {d : Nat} (h : d < 16) : (Text.hexChar d).toNat = if d < 10 then 48 + d else 87 + d := by
  have hall : ∀ d : Fin 16, (Text.hexChar d.val).toNat = if d.val < 10 then 48 + d.val else 87 + d.val := by decide
  exact hall ⟨d, h⟩

/-- A digit in either case is, in lower case, the one that its value is written as. -/
theorem hexDigit?_eq_some_iff {c : Char} {d : Nat} :
    Text.hexDigit? c = some d ↔ d < 16 ∧ c.toLower = Text.hexChar d := by
  have hsame (hd : d < 16) : c.toLower = Text.hexChar d ↔
      (if 65 ≤ c.toNat ∧ c.toNat ≤ 90 then c.toNat + 32 else c.toNat) = if d < 10 then 48 + d else 87 + d := by
    rw [← toNat_toLower, ← toNat_hexChar hd, Char.toNat_inj]
  rw [and_congr_right hsame]
  simp only [Text.hexDigit?, Bool.and_eq_true, decide_eq_true_eq]
  -- The three ranges of digits, and what is none of them.
  split
  · rw [Option.some.injEq]
    split <;> split <;> omega
  · split
    · rw [Option.some.injEq]
      split <;> split <;> omega
    · split
      · rw [Option.some.injEq]
        split <;> split <;> omega
      · refine iff_of_false nofun ?_
        split <;> split <;> omega

theorem hexDigit?_toLower (c : Char) : Text.hexDigit? c.toLower = Text.hexDigit? c := by
  have hlower : c.toLower.toLower = c.toLower := by
    rw [← Char.toNat_inj, toNat_toLower c.toLower, if_neg]
    rw [toNat_toLower]
    split <;> omega
  ext d
  rw [hexDigit?_eq_some_iff, hexDigit?_eq_some_iff, hlower]

theorem decode?_toLower (s : List Char) : decode? (s.map Char.toLower) = decode? s := by
  fun_induction decode? s with
  | case1 | case2 => rfl
  | case3 a b r x y rest hrest hy hx ih | case4 a b r hnone ih =>
    simp_all only [List.map_cons, decode?, hexDigit?_toLower]

theorem encode_of_decode? {s : List Char} {b : Bytes} (h : decode? s = some b) : encode b = s.map Char.toLower := by
  fun_induction decode? s generalizing b with
  | case1 =>
    cases h
    rfl
  | case2 => cases h
  | case3 a c r x y rest hrest hy hx ih =>
    cases h
    obtain ⟨hx, ha⟩ := hexDigit?_eq_some_iff.mp hx
    obtain ⟨hy, hc⟩ := hexDigit?_eq_some_iff.mp hy
    have hbyte : (UInt8.ofNat (16 * x + y)).toNat = 16 * x + y := by
      rw [UInt8.toNat_ofNat']
      omega
    have hhigh : (16 * x + y) / 16 = x := by omega
    have hlow : (16 * x + y) % 16 = y := by omega
    show encodeByte _ ++ encode rest = _
    rw [ih hrest, encodeByte, hbyte, hhigh, hlow, ← ha, ← hc]
    rfl
  | case4 => cases h

/-- Digits stand for bytes when, in lower case, they are those that the bytes are written with. -/
theorem decode?_eq_some_iff {s : List Char} {b : Bytes} : decode? s = some b ↔ s.map Char.toLower = encode b := by
  constructor
  · exact fun h => (encode_of_decode? h).symm
  · intro h
    rw [← decode?_toLower, h, decode?_encode]

/-- An even number of digits denotes half as many bytes, an odd one none. -/
theorem length_decode? {s : List Char} (hs : ∀ c ∈ s, Text.isHexDigit c = true) :
    (decode? s).map List.length = if s.length % 2 = 1 then none else some (s.length / 2) := by
  fun_induction decode? s with
  | case1 | case2 => rfl
  | case3 a b r x y rest hrest hy hx ih =>
    have hlength := ih fun c hc => hs c (List.mem_cons_of_mem a (List.mem_cons_of_mem b hc))
    rw [hrest, Option.map_some] at hlength
    simp only [Option.map_some, List.length_cons, Nat.add_assoc, Nat.reduceAdd, Nat.add_mod_right]
    by_cases hodd : r.length % 2 = 1
    · rw [if_pos hodd] at hlength
      cases hlength
    · rw [if_neg hodd, Option.some.injEq] at hlength ⊢
      omega
  | case4 a b r hnone ih =>
    have hlength := ih fun c hc => hs c (List.mem_cons_of_mem a (List.mem_cons_of_mem b hc))
    obtain ⟨x, hx⟩ := Option.isSome_iff_exists.mp (hs a (by simp))
    obtain ⟨y, hy⟩ := Option.isSome_iff_exists.mp (hs b (by simp))
    cases hr : decode? r with
    | some rest => exact (hnone x y rest hx hy hr).elim
    | none =>
      rw [hr, Option.map_none] at hlength
      simp only [Option.map_none, List.length_cons, Nat.add_assoc, Nat.reduceAdd, Nat.add_mod_right]
      by_cases hodd : r.length % 2 = 1
      · rw [if_pos hodd]
      · rw [if_neg hodd] at hlength
        cases hlength

end Hex

/-! ## 2. Texts -/

/-- A text has the form of hexadecimal text: an even number of digits, behind the mark or without it. -/
def HasHexForm (s : List Char) : Prop :=
  ∃ digits, (s = digits ∨ s = hexMark ++ digits) ∧ digits.length % 2 = 0 ∧ ∀ c ∈ digits, Text.isHexDigit c = true

/-- A text spells bytes: it is their digits in either case, behind the mark or without it. -/
def SpellsBytes (s : List Char) (b : Bytes) : Prop :=
  ∃ digits, (s = digits ∨ s = hexMark ++ digits) ∧ digits.map Char.toLower = Hex.encode b

/-- Without their mark the characters of a token are hexadecimal digits. -/
theorem dropHexMark_of_isHexDigit {s : List Char} (hs : ∀ c ∈ s, Text.isHexDigit c = true) : dropHexMark s = s := by
  unfold dropHexMark
  split
  · exact absurd (hs 'x' (by simp)) (by decide)
  · rfl

theorem dropHexMark_of_isHex {s : List Char} (h : Command.IsHex s) : Command.IsRun Text.isHexDigit (dropHexMark s) := by
  obtain ⟨w, hw, rfl | rfl⟩ := h
  · rw [dropHexMark_of_isHexDigit hw.2]
    exact hw
  · exact hw

theorem bytesOfHexText_of_isHex {text : String} (h : Command.IsHex text.toList) :
    bytesOfHexText text =
      (Hex.decode? (dropHexMark text.toList)).elim (.error (.oddDigits (dropHexMark text.toList).length)) .ok := by
  have hwhole := Command.hex?_append h (r := []) rfl
  rw [List.append_nil] at hwhole
  unfold bytesOfHexText
  split
  · rename_i hnil
    rw [hnil] at hwhole
    cases hwhole
  · rw [hwhole]
    cases Hex.decode? (dropHexMark text.toList) <;> simp only [Option.elim_none, Option.elim_some]

/-- What is neither empty nor a token of hexadecimal digits is no hexadecimal text. -/
theorem bytesOfHexText_of_not_isHex {text : String} (hne : text ≠ "") (h : ¬ Command.IsHex text.toList) :
    bytesOfHexText text = .error .notHex := by
  unfold bytesOfHexText
  split
  · rename_i hnil
    exact absurd (String.toList_eq_nil_iff.mp hnil) hne
  · split
    · rename_i w hread
      obtain ⟨hw, hhex⟩ := Command.of_hex? hread
      rw [List.append_nil] at hw
      exact absurd (hw ▸ hhex) h
    · rfl

theorem isHexDigit_of_map_toLower {digits : List Char} {b : Bytes} (h : digits.map Char.toLower = Hex.encode b) :
    ∀ c ∈ digits, Text.isHexDigit c = true := by
  intro c hc
  have hlower : c.toLower ∈ Hex.encode b := h ▸ List.mem_map_of_mem hc
  have hdigit := Hex.isHexDigit_of_mem_encode hlower
  rw [Text.isHexDigit, Hex.hexDigit?_toLower] at hdigit
  exact hdigit

/-- A text that spells bytes and is neither empty nor the mark alone is a token of hexadecimal digits. -/
theorem SpellsBytes.isHex {text : String} {b : Bytes} (h : SpellsBytes text.toList b) (hne : text ≠ "")
    (hmark : text ≠ "0x") : Command.IsHex text.toList ∧ Hex.decode? (dropHexMark text.toList) = some b := by
  obtain ⟨digits, htext, hdigits⟩ := h
  have hall := isHexDigit_of_map_toLower hdigits
  have hdecode := Hex.decode?_eq_some_iff.mpr hdigits
  rcases htext with htext | htext
  · have hsome : digits ≠ [] := by
      rintro rfl
      exact hne (String.toList_eq_nil_iff.mp htext)
    rw [htext, dropHexMark_of_isHexDigit hall]
    exact ⟨⟨digits, ⟨hsome, hall⟩, .inl rfl⟩, hdecode⟩
  · have hsome : digits ≠ [] := by
      rintro rfl
      exact hmark (String.toList_inj.mp htext)
    rw [htext]
    exact ⟨⟨digits, ⟨hsome, hall⟩, .inr rfl⟩, hdecode⟩

theorem spellsBytes_of_isHex {s : List Char} {b : Bytes} (h : Command.IsHex s)
    (hdecode : Hex.decode? (dropHexMark s) = some b) : SpellsBytes s b := by
  obtain ⟨w, hw, rfl | rfl⟩ := h
  · rw [dropHexMark_of_isHexDigit hw.2] at hdecode
    exact ⟨s, .inl rfl, Hex.decode?_eq_some_iff.mp hdecode⟩
  · exact ⟨w, .inr rfl, Hex.decode?_eq_some_iff.mp hdecode⟩

/-- A text stands for the bytes that it spells, but for the mark alone, which stands for none. -/
theorem bytesOfHexText_eq_ok_iff (text : String) (b : Bytes) :
    bytesOfHexText text = .ok b ↔ SpellsBytes text.toList b ∧ text ≠ "0x" := by
  by_cases hempty : text = ""
  · subst hempty
    have hread : bytesOfHexText "" = .ok [] := rfl
    rw [hread, Except.ok.injEq]
    constructor
    · rintro rfl
      exact ⟨⟨[], .inl rfl, rfl⟩, by decide⟩
    · rintro ⟨⟨digits, htext | htext, hdigits⟩, -⟩
      · have hlength := congrArg List.length hdigits
        rw [← htext, Hex.length_encode] at hlength
        have hnone : 0 = 2 * b.length := hlength
        exact (List.length_eq_zero_iff.mp (by omega)).symm
      · cases htext
  · constructor
    · intro h
      have hhex : Command.IsHex text.toList := by
        by_contra hno
        rw [bytesOfHexText_of_not_isHex hempty hno] at h
        cases h
      rw [bytesOfHexText_of_isHex hhex] at h
      cases hdecode : Hex.decode? (dropHexMark text.toList) with
      | none =>
        rw [hdecode] at h
        cases h
      | some c =>
        rw [hdecode] at h
        cases h
        refine ⟨spellsBytes_of_isHex hhex hdecode, ?_⟩
        -- The mark is no token, since there is no digit behind it.
        rintro rfl
        exact (dropHexMark_of_isHex hhex).1 rfl
    · rintro ⟨hspells, hmark⟩
      obtain ⟨hhex, hdecode⟩ := hspells.isHex hempty hmark
      rw [bytesOfHexText_of_isHex hhex, hdecode]
      rfl

/-- A text has the form of hexadecimal text when it spells some bytes. -/
theorem hasHexForm_iff {s : List Char} : HasHexForm s ↔ ∃ b, SpellsBytes s b := by
  constructor
  · rintro ⟨digits, htext, heven, hall⟩
    have hlength := Hex.length_decode? hall
    rw [if_neg (by omega)] at hlength
    obtain ⟨b, hb, -⟩ := Option.map_eq_some_iff.mp hlength
    exact ⟨b, digits, htext, Hex.decode?_eq_some_iff.mp hb⟩
  · rintro ⟨b, digits, htext, hdigits⟩
    refine ⟨digits, htext, ?_, isHexDigit_of_map_toLower hdigits⟩
    have hlength := congrArg List.length hdigits
    rw [List.length_map, Hex.length_encode] at hlength
    omega

/-! ## 3. What is shown and entered again -/

/-- What bytes are shown as in a field of a kind is read as these bytes. -/
def LeafKind.EntersAgain (kind : LeafKind) (b : Bytes) : Prop :=
  ∃ text, kind.text (.bytes b) = .ok text ∧ bytesOfHexText text = .ok b

/-- A text is read just when it has the form of hexadecimal text. -/
def IsReadByForm (text : String) : Prop := (∃ b, bytesOfHexText text = .ok b) ↔ HasHexForm text.toList

theorem LeafKind.text_bytes {kind : LeafKind} (hkind : kind = .bytes ∨ kind = .bytesHex) (b : Bytes) :
    kind.text (.bytes b) = .ok (hexText b) := by
  rcases hkind with rfl | rfl <;> rfl

theorem spellsBytes_hexText (b : Bytes) : SpellsBytes (hexText b).toList b := by
  refine ⟨Hex.encode b, .inr (by rw [hexText, String.toList_ofList]), ?_⟩
  exact Hex.decode?_eq_some_iff.mp (Hex.decode?_encode b)

theorem hexText_eq_mark_iff (b : Bytes) : hexText b = "0x" ↔ b = [] := by
  constructor
  · intro h
    have hlength := hexText_length b
    rw [h] at hlength
    have htwo : "0x".toList.length = 2 := rfl
    exact List.length_eq_zero_iff.mp (by omega)
  · rintro rfl
    rfl

/-- A text stands for the bytes that it spells, unless it is the mark alone. So every text but the mark is read just when
it has the form of hexadecimal text, and what bytes are shown as in a field is read as these bytes just when there are
any. -/
theorem entersAgain_iff (text : String) (b : Bytes) :
    (bytesOfHexText text = .ok b ↔ SpellsBytes text.toList b ∧ text ≠ "0x") ∧
      (IsReadByForm text ↔ text ≠ "0x") ∧
      ∀ kind, kind = .bytes ∨ kind = .bytesHex → (LeafKind.EntersAgain kind b ↔ b ≠ []) := by
  refine ⟨bytesOfHexText_eq_ok_iff text b, ?_, fun kind hkind => ?_⟩
  · have hread : (∃ b, bytesOfHexText text = .ok b) ↔ HasHexForm text.toList ∧ text ≠ "0x" := by
      rw [hasHexForm_iff, ← exists_and_right]
      exact exists_congr (bytesOfHexText_eq_ok_iff text)
    rw [IsReadByForm, hread, and_iff_left_iff_imp]
    -- The mark has the form, with no digits behind it.
    refine ⟨?_, fun h _ => h⟩
    rintro h rfl
    exact h ⟨[], .inr rfl, rfl, by simp⟩ rfl
  · have hshown : kind.EntersAgain b ↔ bytesOfHexText (hexText b) = .ok b := by
      rw [LeafKind.EntersAgain, LeafKind.text_bytes hkind]
      simp
    rw [hshown, bytesOfHexText_eq_ok_iff, and_iff_right (spellsBytes_hexText b), ne_eq, hexText_eq_mark_iff]

/-- No bytes are shown as the mark alone, and this is refused, by a field too. -/
theorem not_entersAgain_nil :
    LeafKind.bytes.text (.bytes []) = .ok "0x" ∧ bytesOfHexText "0x" = .error .notHex ∧
      LeafKind.bytes.bind "data" "0x" = .error (.invalid "data" (.hex .notHex)) ∧
      ¬ LeafKind.bytes.EntersAgain [] ∧ HasHexForm "0x".toList ∧ ¬ IsReadByForm "0x" := by
  have hrefused : bytesOfHexText "0x" = .error .notHex := by decide
  have hform : HasHexForm "0x".toList := ⟨[], .inr rfl, rfl, by simp⟩
  have hunread : ¬ ∃ b, bytesOfHexText "0x" = .ok b := by
    rw [hrefused]
    rintro ⟨b, hb⟩
    cases hb
  refine ⟨rfl, hrefused, ?_, ?_, hform, fun h => hunread (h.mpr hform)⟩
  · rw [LeafKind.bind, hrefused]
  · rintro ⟨text, htext, hread⟩
    cases htext
    exact hunread ⟨[], hread⟩

end ContractShell
