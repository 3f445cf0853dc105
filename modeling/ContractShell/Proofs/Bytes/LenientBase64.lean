import ContractShell.Proofs.Bytes.Base64

/-!
What the lenient reader of base64 takes.

It sees digits and padding only. Padding means nothing until a group has two digits; then as much of it as the group lacks
ends the text, whatever follows, and less of it means nothing.

## Main statements

* `readFrom_marks`: characters outside the alphabet do not matter.
* `readFrom_eq_ok_iff`: the texts that the lenient reader takes, and the bytes that it gives.
* `exists_takes_padded_iff`: digits with padding up to whole groups are taken unless one digit stands alone.
-/

namespace ContractShell.Base64

/-! ## 1. Digits and padding -/

/-- A character means something to the reader: it is a digit of the standard alphabet, or padding. -/
def isMark (c : Char) : Bool := c == '=' || (value? c).isSome

/-- The digits and the padding in a text. -/
def marks (s : List Char) : List Char := s.filter isMark

theorem ne_pad_of_value? {c : Char} {v : Nat} (h : value? c = some v) : c ≠ '=' := by
  rintro rfl
  cases h

theorem exists_value?_of_isMark {c : Char} (hmark : isMark c = true) (hpad : c ≠ '=') : ∃ v, value? c = some v := by
  rw [isMark, Bool.or_eq_true, beq_iff_eq] at hmark
  exact Option.isSome_iff_exists.mp (hmark.resolve_left hpad)

/-- A text in the form in which the lenient reader sees it: groups of four digits, of which the last may lack one or two
that padding stands for. Padding at the start of a group or after its first digit means nothing, and neither does one
that stands alone after the second digit. Whatever follows a group that padding completes means nothing either. -/
inductive Reads : List Char → Bytes → Prop where
  | done : Reads [] []
  | pad {s : List Char} {b : Bytes} (h : Reads s b) : Reads ('=' :: s) b
  | group {c₁ c₂ c₃ c₄ : Char} {v₁ v₂ v₃ v₄ : Nat} {s : List Char} {b : Bytes} (m : Nat) {n : Nat} (hn : n < 2)
      (h₁ : value? c₁ = some v₁) (h₂ : value? c₂ = some v₂) (h₃ : value? c₃ = some v₃) (h₄ : value? c₄ = some v₄)
      (h : Reads s b) :
      Reads (c₁ :: (List.replicate m '=' ++ c₂ :: (List.replicate n '=' ++ c₃ :: c₄ :: s)))
        (UInt8.ofNat (v₁ * 4 + v₂ / 16) :: UInt8.ofNat (v₂ % 16 * 16 + v₃ / 4) :: UInt8.ofNat (v₃ % 4 * 64 + v₄) :: b)
  | two {c₁ c₂ : Char} {v₁ v₂ : Nat} (m : Nat) (s : List Char) (h₁ : value? c₁ = some v₁) (h₂ : value? c₂ = some v₂) :
      Reads (c₁ :: (List.replicate m '=' ++ c₂ :: '=' :: '=' :: s)) [UInt8.ofNat (v₁ * 4 + v₂ / 16)]
  | three {c₁ c₂ c₃ : Char} {v₁ v₂ v₃ : Nat} (m : Nat) {n : Nat} (hn : n < 2) (s : List Char)
      (h₁ : value? c₁ = some v₁) (h₂ : value? c₂ = some v₂) (h₃ : value? c₃ = some v₃) :
      Reads (c₁ :: (List.replicate m '=' ++ c₂ :: (List.replicate n '=' ++ c₃ :: '=' :: s)))
        [UInt8.ofNat (v₁ * 4 + v₂ / 16), UInt8.ofNat (v₂ % 16 * 16 + v₃ / 4)]

/-! ## 2. Single steps -/

theorem readFrom_foreign {c : Char} (h : isMark c = false) (k : Cursor) (s : List Char) :
    readFrom false k (c :: s) = readFrom false k s := by
  rw [isMark, Bool.or_eq_false_iff, beq_eq_false_iff_ne, Option.isSome_eq_false_iff, Option.isNone_iff_eq_none] at h
  rw [readFrom, if_neg h.1, h.2]
  rfl

/-- Characters outside the alphabet do not matter to the lenient reader. -/
theorem readFrom_marks (k : Cursor) (s : List Char) : readFrom false k (marks s) = readFrom false k s := by
  induction s generalizing k with
  | nil => rfl
  | cons c s ih =>
    unfold marks at ih ⊢
    by_cases hmark : isMark c = true
    · rw [List.filter_cons_of_pos hmark]
      -- Both readers take the same step, and what is left is read alike after it.
      simp only [readFrom, ih]
      by_cases hpad : c = '='
      · simp only [hpad, if_true, Bool.false_and, Bool.false_eq_true, if_false]
      · simp only [if_neg hpad]
    · rw [List.filter_cons_of_neg hmark, ih, readFrom_foreign (by simpa using hmark)]

/-- The reader takes a text and gives bytes when it stands at a place in a group, with some bits left over and some padding
seen. What else its cursor holds does not matter when it is lenient. -/
def Takes (place left pads : Nat) (s : List Char) (b : Bytes) : Prop :=
  ∀ padded digits, readFrom false ⟨place, left, pads, padded, digits⟩ s = .ok b

section

variable {place left pads : Nat} {c : Char} {v : Nat} {s : List Char} {b : Bytes}

theorem map_cons_eq_ok_iff {x : UInt8} {r : Except Fault Bytes} :
    r.map (x :: ·) = .ok b ↔ ∃ rest, b = x :: rest ∧ r = .ok rest := by
  cases r with
  | error f => simp [Except.map]
  | ok rest => simp [Except.map, eq_comm]

theorem readFrom_value (h : value? c = some v) (k : Cursor) (s : List Char) :
    readFrom false k (c :: s) =
      match k.take v with
      | (some byte, k') => (readFrom false k' s).map (byte :: ·)
      | (none, k') => readFrom false k' s := by
  rw [readFrom, if_neg (ne_pad_of_value? h), h]
  rfl

theorem readFrom_congr (s : List Char) (place left pads : Nat) (padded padded' : Bool) (digits digits' : Nat)
    (b : Bytes) : readFrom false ⟨place, left, pads, padded, digits⟩ s = .ok b ↔
      readFrom false ⟨place, left, pads, padded', digits'⟩ s = .ok b := by
  induction s generalizing place left pads padded padded' digits digits' b with
  | nil =>
    simp only [readFrom]
    split
    · rfl
    · split <;> simp
  | cons c s ih =>
    by_cases hmark : isMark c = true
    · by_cases hpad : c = '='
      · rw [readFrom, readFrom, if_pos hpad, if_pos hpad]
        split
        · rfl
        · exact ih ..
      · obtain ⟨v, hv⟩ := exists_value?_of_isMark hmark hpad
        rw [readFrom_value hv, readFrom_value hv]
        -- A digit moves the cursor by its place alone.
        rcases place with _ | _ | _ | place
        · exact ih ..
        all_goals
          refine map_cons_eq_ok_iff.trans (Iff.trans ?_ map_cons_eq_ok_iff.symm)
          exact exists_congr fun rest => and_congr_right fun _ => ih ..
    · rw [readFrom_foreign (by simpa using hmark), readFrom_foreign (by simpa using hmark)]
      exact ih ..

theorem takes_iff (padded : Bool) (digits : Nat) :
    Takes place left pads s b ↔ readFrom false ⟨place, left, pads, padded, digits⟩ s = .ok b :=
  ⟨fun h => h padded digits, fun h padded' digits' => (readFrom_congr s place left pads padded padded' digits digits' b).mp h⟩

theorem takes_nil_iff : Takes place left pads [] b ↔ place = 0 ∧ b = [] := by
  rw [takes_iff false 0, readFrom]
  split
  · rename_i hplace
    simp [show place = 0 from hplace, eq_comm]
  · rename_i hplace
    have hne : place ≠ 0 := hplace
    split <;> simp [hne]

/-- Padding before the second digit of a group means nothing. -/
theorem takes_pad_early_iff (hplace : place < 2) : Takes place left pads ('=' :: s) b ↔ Takes place left pads s b := by
  rw [takes_iff false 0, takes_iff true 0, readFrom, if_pos rfl, if_neg (by simp only; omega), if_neg (by simp only; omega)]

/-- One padding character after the second digit means nothing by itself. -/
theorem takes_pad_short_iff : Takes 2 left 0 ('=' :: s) b ↔ Takes 2 left 1 s b := by
  rw [takes_iff false 0, takes_iff true 0, readFrom, if_pos rfl, if_neg (by simp), if_pos (by simp)]

/-- Padding that completes a group ends the text. -/
theorem takes_pad_last_iff (hplace : 2 ≤ place) (hlast : 4 ≤ place + pads + 1) :
    Takes place left pads ('=' :: s) b ↔ b = [] := by
  rw [takes_iff false 0, readFrom, if_pos rfl, if_pos ⟨hplace, hlast⟩]
  simp [eq_comm]

theorem takes_first_iff (h : value? c = some v) : Takes 0 left pads (c :: s) b ↔ Takes 1 v 0 s b := by
  rw [takes_iff false 0, takes_iff false 1, readFrom_value h]
  rfl

theorem takes_second_iff (h : value? c = some v) : Takes 1 left pads (c :: s) b ↔
    ∃ rest, b = UInt8.ofNat (left * 4 + v / 16) :: rest ∧ Takes 2 (v % 16) 0 s rest := by
  rw [takes_iff false 0, readFrom_value h]
  exact map_cons_eq_ok_iff.trans (exists_congr fun rest => and_congr_right fun _ => (takes_iff false 1).symm)

theorem takes_third_iff (h : value? c = some v) : Takes 2 left pads (c :: s) b ↔
    ∃ rest, b = UInt8.ofNat (left * 16 + v / 4) :: rest ∧ Takes 3 (v % 4) 0 s rest := by
  rw [takes_iff false 0, readFrom_value h]
  exact map_cons_eq_ok_iff.trans (exists_congr fun rest => and_congr_right fun _ => (takes_iff false 1).symm)

theorem takes_fourth_iff (h : value? c = some v) : Takes 3 left pads (c :: s) b ↔
    ∃ rest, b = UInt8.ofNat (left * 64 + v) :: rest ∧ Takes 0 0 0 s rest := by
  rw [takes_iff false 0, readFrom_value h]
  exact map_cons_eq_ok_iff.trans (exists_congr fun rest => and_congr_right fun _ => (takes_iff false 1).symm)

/-! ## 3. Groups -/

theorem takes_replicate_early_iff (hplace : place < 2) (m : Nat) :
    Takes place left pads (List.replicate m '=' ++ s) b ↔ Takes place left pads s b := by
  induction m with
  | zero => exact .rfl
  | succ m ih =>
    rw [List.replicate_succ, List.cons_append, takes_pad_early_iff hplace]
    exact ih

theorem takes_third_padded_iff (h : value? c = some v) {n : Nat} (hn : n < 2) :
    Takes 2 left 0 (List.replicate n '=' ++ c :: s) b ↔
      ∃ rest, b = UInt8.ofNat (left * 16 + v / 4) :: rest ∧ Takes 3 (v % 4) 0 s rest := by
  rcases Nat.le_one_iff_eq_zero_or_eq_one.mp (Nat.lt_succ_iff.mp hn) with rfl | rfl
  · exact takes_third_iff h
  · exact takes_pad_short_iff.trans (takes_third_iff h)

/-- What has the form of groups is taken. -/
theorem Reads.takes (h : Reads s b) : Takes 0 left pads s b := by
  induction h generalizing left pads with
  | done => exact takes_nil_iff.mpr ⟨rfl, rfl⟩
  | pad _ ih => exact (takes_pad_early_iff (by decide)).mpr ih
  | group m hn h₁ h₂ h₃ h₄ _ ih =>
    rw [takes_first_iff h₁, takes_replicate_early_iff (by decide), takes_second_iff h₂]
    refine ⟨_, rfl, ?_⟩
    rw [takes_third_padded_iff h₃ hn]
    refine ⟨_, rfl, ?_⟩
    rw [takes_fourth_iff h₄]
    exact ⟨_, rfl, ih⟩
  | two m s h₁ h₂ =>
    rw [takes_first_iff h₁, takes_replicate_early_iff (by decide), takes_second_iff h₂]
    refine ⟨_, rfl, ?_⟩
    rw [takes_pad_short_iff, takes_pad_last_iff (by decide) (by decide)]
  | three m hn s h₁ h₂ h₃ =>
    rw [takes_first_iff h₁, takes_replicate_early_iff (by decide), takes_second_iff h₂]
    refine ⟨_, rfl, ?_⟩
    rw [takes_third_padded_iff h₃ hn]
    refine ⟨_, rfl, ?_⟩
    rw [takes_pad_last_iff (by decide) (by decide)]

/-- After the first digit of a group comes a second one, with padding before it that means nothing. -/
theorem Takes.second (h : Takes 1 left pads s b) (hmarks : ∀ c ∈ s, isMark c = true) :
    ∃ m c v rest b', s = List.replicate m '=' ++ c :: rest ∧ value? c = some v ∧
      b = UInt8.ofNat (left * 4 + v / 16) :: b' ∧ Takes 2 (v % 16) 0 rest b' := by
  induction s with
  | nil => exact absurd (takes_nil_iff.mp h).1 (by decide)
  | cons c s ih =>
    obtain ⟨hmark, hmarks⟩ := List.forall_mem_cons.mp hmarks
    by_cases hpad : c = '='
    · rw [hpad, takes_pad_early_iff (by decide)] at h
      obtain ⟨m, d, v, rest, b', hs, hrest⟩ := ih h hmarks
      exact ⟨m + 1, d, v, rest, b', by rw [hpad, hs]; rfl, hrest⟩
    · obtain ⟨v, hv⟩ := exists_value?_of_isMark hmark hpad
      obtain ⟨b', hb, hrest⟩ := (takes_second_iff hv).mp h
      exact ⟨0, c, v, s, b', rfl, hv, hb, hrest⟩

/-- After the second digit of a group comes padding that completes it, or a third digit. -/
theorem Takes.third (h : Takes 2 left 0 s b) (hmarks : ∀ c ∈ s, isMark c = true) :
    (∃ rest, s = '=' :: '=' :: rest ∧ b = []) ∨
      ∃ n < 2, ∃ c v rest b', s = List.replicate n '=' ++ c :: rest ∧ value? c = some v ∧
        b = UInt8.ofNat (left * 16 + v / 4) :: b' ∧ Takes 3 (v % 4) 0 rest b' := by
  cases s with
  | nil => exact absurd (takes_nil_iff.mp h).1 (by decide)
  | cons c s =>
    obtain ⟨hmark, hmarks⟩ := List.forall_mem_cons.mp hmarks
    by_cases hpad : c = '='
    · rw [hpad, takes_pad_short_iff] at h
      cases s with
      | nil => exact absurd (takes_nil_iff.mp h).1 (by decide)
      | cons d s =>
        by_cases hpad' : d = '='
        · rw [hpad', takes_pad_last_iff (by decide) (by decide)] at h
          exact .inl ⟨s, by rw [hpad, hpad'], h⟩
        · obtain ⟨v, hv⟩ := exists_value?_of_isMark (List.forall_mem_cons.mp hmarks).1 hpad'
          obtain ⟨b', hb, hrest⟩ := (takes_third_iff hv).mp h
          exact .inr ⟨1, by decide, d, v, s, b', by rw [hpad]; rfl, hv, hb, hrest⟩
    · obtain ⟨v, hv⟩ := exists_value?_of_isMark hmark hpad
      obtain ⟨b', hb, hrest⟩ := (takes_third_iff hv).mp h
      exact .inr ⟨0, by decide, c, v, s, b', rfl, hv, hb, hrest⟩

/-- After the third digit of a group comes padding that completes it, or a fourth digit. -/
theorem Takes.fourth (h : Takes 3 left 0 s b) (hmarks : ∀ c ∈ s, isMark c = true) :
    (∃ rest, s = '=' :: rest ∧ b = []) ∨
      ∃ c v rest b', s = c :: rest ∧ value? c = some v ∧ b = UInt8.ofNat (left * 64 + v) :: b' ∧ Takes 0 0 0 rest b' := by
  cases s with
  | nil => exact absurd (takes_nil_iff.mp h).1 (by decide)
  | cons c s =>
    by_cases hpad : c = '='
    · rw [hpad, takes_pad_last_iff (by decide) (by decide)] at h
      exact .inl ⟨s, by rw [hpad], h⟩
    · obtain ⟨v, hv⟩ := exists_value?_of_isMark (List.forall_mem_cons.mp hmarks).1 hpad
      obtain ⟨b', hb, hrest⟩ := (takes_fourth_iff hv).mp h
      exact .inr ⟨c, v, s, b', rfl, hv, hb, hrest⟩

/-- What is taken has the form of groups. -/
theorem Takes.reads (h : Takes 0 left pads s b) (hmarks : ∀ c ∈ s, isMark c = true) : Reads s b := by
  -- The induction is on the length of the text, since a group takes several characters.
  induction hlength : s.length using Nat.strongRecOn generalizing s left pads b with
  | ind length ih =>
    subst hlength
    cases s with
    | nil =>
      rw [(takes_nil_iff.mp h).2]
      exact .done
    | cons c s =>
      obtain ⟨hmark, hmarks⟩ := List.forall_mem_cons.mp hmarks
      by_cases hpad : c = '='
      · rw [hpad, takes_pad_early_iff (by decide)] at h
        rw [hpad]
        exact .pad (ih _ (by simp) h hmarks rfl)
      obtain ⟨v₁, h₁⟩ := exists_value?_of_isMark hmark hpad
      obtain ⟨m, c₂, v₂, r₂, b₂, rfl, h₂, rfl, hr₂⟩ := ((takes_first_iff h₁).mp h).second hmarks
      have hmarks₂ : ∀ c ∈ r₂, isMark c = true := fun c hc => hmarks c (by simp [hc])
      rcases hr₂.third hmarks₂ with ⟨rest, rfl, rfl⟩ | ⟨n, hn, c₃, v₃, r₃, b₃, rfl, h₃, rfl, hr₃⟩
      · exact .two m rest h₁ h₂
      have hmarks₃ : ∀ c ∈ r₃, isMark c = true := fun c hc => hmarks₂ c (by simp [hc])
      rcases hr₃.fourth hmarks₃ with ⟨rest, rfl, rfl⟩ | ⟨c₄, v₄, r₄, b₄, rfl, h₄, rfl, hr₄⟩
      · exact .three m hn rest h₁ h₂ h₃
      · refine .group m hn h₁ h₂ h₃ h₄ (ih _ ?_ hr₄ (fun c hc => hmarks₃ c (by simp [hc])) rfl)
        simp only [List.length_cons, List.length_append]
        omega

end

/-- The texts that the lenient reader takes, and the bytes that it gives. -/
theorem readFrom_eq_ok_iff (s : List Char) (b : Bytes) : readFrom false .start s = .ok b ↔ Reads (marks s) b := by
  rw [← readFrom_marks]
  have htakes : readFrom false .start (marks s) = .ok b ↔ Takes 0 0 0 (marks s) b := (takes_iff false 0).symm
  rw [htakes]
  exact ⟨fun h => h.reads fun c hc => (List.mem_filter.mp hc).2, Reads.takes⟩

/-! ## 4. Texts that are base64 -/

/-- Digits with padding up to whole groups are taken unless one digit stands alone. -/
theorem exists_takes_padded_iff (left pads n : Nat) : ∀ s : List Char, (∀ c ∈ s, (value? c).isSome = true) →
    (s.length + n) % 4 = 0 → ((∃ b, Takes 0 left pads (s ++ List.replicate n '=') b) ↔ s.length % 4 ≠ 1)
  | [], _, _ => by
    have htakes : Takes 0 left pads (List.replicate n '=' ++ []) [] :=
      (takes_replicate_early_iff (by decide) n).mpr (takes_nil_iff.mpr ⟨rfl, rfl⟩)
    rw [List.append_nil] at htakes
    exact ⟨fun _ => by decide, fun _ => ⟨[], htakes⟩⟩
  | [c], hs, _ => by
    obtain ⟨v, hv⟩ := Option.isSome_iff_exists.mp (hs c (by simp))
    refine ⟨fun ⟨b, hb⟩ => ?_, fun h => absurd rfl h⟩
    have htakes : Takes 1 v 0 (List.replicate n '=' ++ []) b := by
      rw [List.append_nil]
      exact (takes_first_iff hv).mp hb
    rw [takes_replicate_early_iff (by decide), takes_nil_iff] at htakes
    exact absurd htakes.1 (by decide)
  | [c₁, c₂], hs, hn => by
    obtain ⟨v₁, h₁⟩ := Option.isSome_iff_exists.mp (hs c₁ (by simp))
    obtain ⟨v₂, h₂⟩ := Option.isSome_iff_exists.mp (hs c₂ (by simp))
    have hlength : [c₁, c₂].length = 2 := rfl
    obtain ⟨m, rfl⟩ : ∃ m, n = m + 2 := ⟨n - 2, by omega⟩
    exact ⟨fun _ => by rw [hlength]; decide, fun _ => ⟨_, (Reads.two 0 (List.replicate m '=') h₁ h₂).takes⟩⟩
  | [c₁, c₂, c₃], hs, hn => by
    obtain ⟨v₁, h₁⟩ := Option.isSome_iff_exists.mp (hs c₁ (by simp))
    obtain ⟨v₂, h₂⟩ := Option.isSome_iff_exists.mp (hs c₂ (by simp))
    obtain ⟨v₃, h₃⟩ := Option.isSome_iff_exists.mp (hs c₃ (by simp))
    have hlength : [c₁, c₂, c₃].length = 3 := rfl
    obtain ⟨m, rfl⟩ : ∃ m, n = m + 1 := ⟨n - 1, by omega⟩
    have hthree := Reads.three 0 Nat.zero_lt_two (List.replicate m '=') h₁ h₂ h₃
    exact ⟨fun _ => by rw [hlength]; decide, fun _ => ⟨_, hthree.takes⟩⟩
  | c₁ :: c₂ :: c₃ :: c₄ :: s, hs, hn => by
    obtain ⟨v₁, h₁⟩ := Option.isSome_iff_exists.mp (hs c₁ (by simp))
    obtain ⟨v₂, h₂⟩ := Option.isSome_iff_exists.mp (hs c₂ (by simp))
    obtain ⟨v₃, h₃⟩ := Option.isSome_iff_exists.mp (hs c₃ (by simp))
    obtain ⟨v₄, h₄⟩ := Option.isSome_iff_exists.mp (hs c₄ (by simp))
    have hlength : (c₁ :: c₂ :: c₃ :: c₄ :: s).length = s.length + 4 := rfl
    have hrest := exists_takes_padded_iff 0 0 n s (fun c hc => hs c (by simp [hc])) (by omega)
    have hgroup (b : Bytes) : Takes 0 left pads (c₁ :: c₂ :: c₃ :: c₄ :: s ++ List.replicate n '=') b ↔
        ∃ rest, b = UInt8.ofNat (v₁ * 4 + v₂ / 16) :: UInt8.ofNat (v₂ % 16 * 16 + v₃ / 4) ::
          UInt8.ofNat (v₃ % 4 * 64 + v₄) :: rest ∧ Takes 0 0 0 (s ++ List.replicate n '=') rest := by
      simp only [List.cons_append, takes_first_iff h₁, takes_second_iff h₂, takes_third_iff h₃, takes_fourth_iff h₄]
      grind
    rw [hlength, Nat.add_mod_right, ← hrest]
    constructor
    · rintro ⟨b, hb⟩
      obtain ⟨rest, -, hrest⟩ := (hgroup b).mp hb
      exact ⟨rest, hrest⟩
    · rintro ⟨rest, hrest⟩
      exact ⟨_, (hgroup _).mpr ⟨rest, rfl, hrest⟩⟩

end ContractShell.Base64
