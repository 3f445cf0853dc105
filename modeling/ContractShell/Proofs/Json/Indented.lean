import ContractShell.Proofs.Json.Strings
import ContractShell.Proofs.Text.Lines
import Mathlib.Data.List.Nodup

/-!
Indented objects are read back: an object with different keys whose values are read back is read from its indented text.

## Main statements

* `readsBack_str`: a string as a value is read back.
* `read?_indented`: an object is read back from its indented text.
* `unifyLineEnds_indented`: an indented text of plain values has no other line ends than line feeds.
-/

namespace ContractShell.Json

/-! ## 1. Values -/

/-- A value is read back from its compact text, in front of what follows it in an indented object. -/
def ReadsBack (v : Json) : Prop :=
  ∀ (fuel : Nat) (c : Char) (r : List Char), c = ',' ∨ c = '\n' → (compact v).length ≤ fuel →
    readValue? fuel (skipBlank (compact v ++ c :: r)) = some (v, c :: r)

theorem length_le_writeString (s : String) : s.toList.length + 2 ≤ (writeString s).length := by
  have hpos (c : Char) : 1 ≤ (escape c).length := by
    have hform := isWritten_escape c
    generalize escape c = text at hform ⊢
    cases hform <;> simp [unitEscape]
  have hle (l : List Char) : l.length ≤ (l.flatMap escape).length := by
    induction l with
    | nil => exact Nat.le_refl 0
    | cons c l ih =>
      rw [List.flatMap_cons, List.length_append, List.length_cons]
      have := hpos c
      omega
  have := hle s.toList
  simp only [writeString, List.length_append, List.length_cons, List.length_nil]
  omega

theorem skipBlank_cons {c : Char} (h : isBlank c = false) (r : List Char) : skipBlank (c :: r) = c :: r := by
  rw [skipBlank, List.dropWhile_cons, h]
  rfl

/-- A string as a value is read back. -/
theorem readsBack_str (s : String) : ReadsBack (.str s) := by
  intro fuel c r _ hfuel
  have hlength : s.toList.length + 2 ≤ fuel := Nat.le_trans (length_le_writeString s) hfuel
  obtain ⟨fuel, rfl⟩ : ∃ f, fuel = f + 1 := ⟨fuel - 1, by omega⟩
  rw [compact, writeString_append, skipBlank_cons (by decide), readValue?,
    readStringFrom_writeString (by omega)]
  rfl

/-- The number one as a value is read back. -/
theorem readsBack_one : ReadsBack (.int 1) := by
  intro fuel c r hc hfuel
  obtain ⟨fuel, rfl⟩ : ∃ f, fuel = f + 1 := ⟨fuel - 1, (Nat.succ_pred_eq_of_pos hfuel).symm⟩
  rcases hc with rfl | rfl
  · rfl
  · rfl

/-! ## 2. Members -/

/-- A member on its line. -/
def memberText (p : String × Json) : List Char := writeString p.1 ++ ':' :: ' ' :: compact p.2

/-- The lines of members behind the blanks of the first line. -/
def lines (m : List (String × Json)) : List Char := [',', '\n', ' ', ' '].intercalate (m.map memberText)

theorem lines_singleton (p : String × Json) : lines [p] = memberText p := by
  simp [lines]

theorem lines_cons_cons (p q : String × Json) (m : List (String × Json)) :
    lines (p :: q :: m) = memberText p ++ ',' :: '\n' :: ' ' :: ' ' :: lines (q :: m) := by
  simp [lines]

theorem toList_indented (p : String × Json) (m : List (String × Json)) :
    (indented (p :: m)).toList = '\x7b' :: '\n' :: ' ' :: ' ' :: (lines (p :: m) ++ ['\n', '\x7d']) := by
  have hlines : (String.intercalate ",\n" ((p :: m).map fun q =>
      "  " ++ String.ofList (writeString q.1 ++ ':' :: ' ' :: compact q.2))).toList =
      ' ' :: ' ' :: lines (p :: m) := by
    rw [String.toList_intercalate, List.map_map]
    induction m generalizing p with
    | nil => simp [lines, memberText]
    | cons q m ih =>
      rw [lines_cons_cons, List.map_cons, List.map_cons, List.intercalate_cons_cons, ← List.map_cons, ih]
      simp [memberText]
  simp only [indented, String.toList_append, hlines]
  simp

theorem memberText_append (p : String × Json) (r : List Char) :
    memberText p ++ r = '"' :: (p.1.toList.flatMap escape ++ '"' :: ':' :: ' ' :: (compact p.2 ++ r)) := by
  rw [memberText, List.append_assoc, writeString_append]
  rfl

/-- Lines start with the quote of a key. -/
theorem exists_lines_append_eq (p : String × Json) (m : List (String × Json)) (r : List Char) :
    ∃ rest, lines (p :: m) ++ r = '"' :: rest := by
  cases m with
  | nil => exact ⟨_, by rw [lines_singleton, memberText_append]⟩
  | cons q m => exact ⟨_, by rw [lines_cons_cons, List.append_assoc, memberText_append]⟩

/-- A member in front of a comma or the end is read, and the reader goes on or stops. -/
theorem readMembers?_memberText {p : String × Json} (hp : ReadsBack p.2) {fuel : Nat}
    (hfuel : (memberText p).length ≤ fuel) (done : List (String × Json)) (r : List Char) :
    readMembers? (fuel + 1) done (memberText p ++ ',' :: '\n' :: ' ' :: ' ' :: '"' :: r) =
        readMembers? fuel (set p.1 p.2 done) ('"' :: r) ∧
      readMembers? (fuel + 1) done (memberText p ++ '\n' :: '\x7d' :: r) = some (set p.1 p.2 done, r) := by
  have hlength : (memberText p).length = (writeString p.1).length + (compact p.2).length + 2 := by
    simp only [memberText, List.length_append, List.length_cons]
    omega
  have hkey := length_le_writeString p.1
  have hblank (s : List Char) : skipBlank (' ' :: s) = skipBlank s := rfl
  constructor
  · rw [memberText_append, readMembers?, readStringFrom_writeString (by omega)]
    simp only [skipBlank_cons (show isBlank ':' = false by decide), hblank,
      hp fuel ',' _ (.inl rfl) (by omega), skipBlank_cons (show isBlank ',' = false by decide)]
    rfl
  · rw [memberText_append, readMembers?, readStringFrom_writeString (by omega)]
    simp only [skipBlank_cons (show isBlank ':' = false by decide), hblank,
      hp fuel '\n' _ (.inr rfl) (by omega)]
    rfl

/-- Members on lines are read in order. -/
theorem readMembers?_lines {p : String × Json} {m : List (String × Json)} (hvalues : ∀ q ∈ p :: m, ReadsBack q.2)
    {fuel : Nat} (hfuel : (lines (p :: m)).length ≤ fuel) (done : List (String × Json)) :
    readMembers? (fuel + 1) done (lines (p :: m) ++ ['\n', '\x7d']) =
      some ((p :: m).foldl (fun d q => set q.1 q.2 d) done, []) := by
  induction m generalizing p fuel done with
  | nil =>
    rw [lines_singleton] at hfuel ⊢
    exact (readMembers?_memberText (hvalues p (by simp)) hfuel done []).2
  | cons q m ih =>
    rw [lines_cons_cons] at hfuel ⊢
    rw [List.length_append] at hfuel
    simp only [List.length_cons] at hfuel
    obtain ⟨rest, hrest⟩ := exists_lines_append_eq q m ['\n', '\x7d']
    obtain ⟨fuel, rfl⟩ : ∃ f, fuel = f + 1 := ⟨fuel - 1, by omega⟩
    rw [List.append_assoc]
    simp only [List.cons_append]
    rw [hrest, (readMembers?_memberText (hvalues p (by simp)) (by omega) done rest).1, ← hrest,
      ih (fun x hx => hvalues x (List.mem_cons_of_mem p hx)) (by omega)]
    rfl

theorem foldl_set_of_nodup {m done : List (String × Json)} (h : ((done ++ m).map Prod.fst).Nodup) :
    m.foldl (fun d q => set q.1 q.2 d) done = done ++ m := by
  induction m generalizing done with
  | nil => simp
  | cons p m ih =>
    have hfresh : ∀ q ∈ done, q.1 ≠ p.1 := by
      intro q hq heq
      rw [List.map_append, List.nodup_append] at h
      exact h.2.2 q.1 (List.mem_map_of_mem hq) p.1 (by simp) heq
    rw [List.foldl_cons, set_fresh _ _ _ hfresh, ih (by simpa using h), List.append_assoc]
    rfl

/-! ## 3. Objects -/

/-- An object is read back from its indented text. -/
theorem read?_indented {m : List (String × Json)} (hne : m ≠ []) (hkeys : (m.map Prod.fst).Nodup)
    (hvalues : ∀ p ∈ m, ReadsBack p.2) : read? (indented m) = some (.obj m) := by
  obtain ⟨p, m, rfl⟩ := List.exists_cons_of_ne_nil hne
  obtain ⟨rest, hrest⟩ := exists_lines_append_eq p m ['\n', '\x7d']
  have hset : (p :: m).foldl (fun d q => set q.1 q.2 d) [] = [] ++ (p :: m) := foldl_set_of_nodup hkeys
  have hread {fuel : Nat} (hfuel : (lines (p :: m)).length ≤ fuel) :
      readValue? (fuel + 2) ('\x7b' :: '\n' :: ' ' :: ' ' :: '"' :: rest) = some (.obj (p :: m), []) := by
    have hmembers := readMembers?_lines hvalues hfuel []
    rw [hrest, hset, List.nil_append] at hmembers
    show (readMembers? (fuel + 1) [] ('"' :: rest)).map _ = _
    rw [hmembers]
    rfl
  rw [read?, toList_indented, skipBlank_cons (by decide), hrest, hread ?_]
  · rfl
  · have hlength := congrArg List.length hrest
    rw [List.length_append] at hlength
    simp only [List.length_cons] at hlength ⊢
    omega

/-! ## 4. Line ends -/

theorem mem_lines {m : List (String × Json)} (hvalues : ∀ p ∈ m, ∀ c ∈ compact p.2, isPlain c = true) {c : Char}
    (h : c ∈ lines m) : c = '\n' ∨ isPlain c = true := by
  have hmember {p : String × Json} (hp : ∀ c ∈ compact p.2, isPlain c = true) (hc : c ∈ memberText p) :
      isPlain c = true := by
    rw [memberText, List.mem_append, List.mem_cons, List.mem_cons] at hc
    rcases hc with hc | rfl | rfl | hc
    · exact isPlain_of_mem_writeString hc
    · decide
    · decide
    · exact hp c hc
  induction m with
  | nil => cases h
  | cons p m ih =>
    have hparts := List.forall_mem_cons.mp hvalues
    cases m with
    | nil =>
      rw [lines_singleton] at h
      exact .inr (hmember hparts.1 h)
    | cons q m =>
      rw [lines_cons_cons] at h
      simp only [List.mem_append, List.mem_cons] at h
      rcases h with h | rfl | rfl | rfl | rfl | h
      · exact .inr (hmember hparts.1 h)
      · exact .inr (by decide)
      · exact .inl rfl
      · exact .inr (by decide)
      · exact .inr (by decide)
      · exact ih hparts.2 h

/-- An indented text of values in printable ASCII has no other line ends than line feeds. -/
theorem unifyLineEnds_indented {m : List (String × Json)} (hne : m ≠ [])
    (hvalues : ∀ p ∈ m, ∀ c ∈ compact p.2, isPlain c = true) :
    Text.unifyLineEnds (indented m).toList = (indented m).toList := by
  obtain ⟨p, m, rfl⟩ := List.exists_cons_of_ne_nil hne
  apply Text.unifyLineEnds_of_forall
  rintro c hc rfl
  rw [toList_indented] at hc
  simp only [List.mem_cons, List.mem_append, List.not_mem_nil, or_false] at hc
  rcases hc with hc | hc | hc | hc | hc | hc | hc
  all_goals first
    | exact absurd hc (by decide)
    | exact absurd (mem_lines hvalues hc) (by decide)

end ContractShell.Json
