import ContractShell.History
import ContractShell.Proofs.Files.Writing
import ContractShell.Proofs.Text.Lines
import Mathlib.Data.List.Destutter
import Mathlib.Data.List.Induction

/-!
What a history holds: of all lines that were typed the recent ones, in memory and in its file.

A line is held without the blanks at its ends. Blank lines and lines that repeat the one before them do not count. The
history drops what is too old as it grows, which comes to the same as dropping it at the end. Its file is written anew
whenever the lines change. A history that starts from the file goes on with the same lines if all of them are text; as long
as there is a stray in one of them, the file is left empty.

## Main statements

* `destutter_concat`: one more line at the end, with repetitions left out.
* `entries_appendAll`: what is held in memory after lines were typed.
* `Shown.append`: after every line the file shows what is held in memory, as far as that can be written.
* `Shown.load`: which lines are read from the file.
* `holds_recent`: both together, for every limit and all lines.
-/

namespace ContractShell

/-! ## 1. Repetitions and old lines -/

namespace History

section

variable {α : Type} [DecidableEq α]

theorem getLast?_destutter' (a : α) (l : List α) : (l.destutter' (· ≠ ·) a).getLast? = (a :: l).getLast? := by
  induction l generalizing a with
  | nil => rfl
  | cons b l ih =>
    by_cases h : a = b
    · rw [List.destutter'_cons_neg l (not_not.mpr h), ih, h, List.getLast?_cons_cons]
    · rw [List.destutter'_cons_pos l h, List.getLast?_cons_cons, ← ih b]
      obtain ⟨c, t, ht⟩ := List.exists_cons_of_ne_nil (List.destutter'_ne_nil l (· ≠ ·) (a := b))
      rw [ht, List.getLast?_cons_cons]

/-- Leaving out repetitions keeps the last one. -/
theorem getLast?_destutter (l : List α) : (l.destutter (· ≠ ·)).getLast? = l.getLast? := by
  cases l with
  | nil => rfl
  | cons a l => exact getLast?_destutter' a l

theorem destutter'_concat (a : α) (l : List α) (x : α) : (l ++ [x]).destutter' (· ≠ ·) a =
    if (a :: l).getLast? = some x then l.destutter' (· ≠ ·) a else l.destutter' (· ≠ ·) a ++ [x] := by
  induction l generalizing a with
  | nil =>
    rw [List.nil_append, List.destutter'_singleton]
    by_cases h : a = x <;> simp [h]
  | cons b l ih =>
    rw [List.cons_append, List.getLast?_cons_cons]
    by_cases h : a = b
    · rw [List.destutter'_cons_neg _ (not_not.mpr h), List.destutter'_cons_neg _ (not_not.mpr h), ih, h]
    · rw [List.destutter'_cons_pos _ h, List.destutter'_cons_pos _ h, ih]
      split <;> rfl

/-- One more at the end counts unless it repeats the last one. -/
theorem destutter_concat (l : List α) (x : α) : (l ++ [x]).destutter (· ≠ ·) =
    if l.getLast? = some x then l.destutter (· ≠ ·) else l.destutter (· ≠ ·) ++ [x] := by
  cases l with
  | nil => rfl
  | cons a l => exact destutter'_concat a l x

end

section

variable {α : Type} {n : Nat} (hn : 0 < n) (l : List α)

include hn

theorem getLast?_rtake : (l.rtake n).getLast? = l.getLast? := by
  rw [List.rtake_eq_reverse_take_reverse, List.getLast?_reverse, List.head?_take, if_neg (Nat.ne_of_gt hn),
    List.head?_reverse]

/-- What was dropped before one more came would be dropped after it. -/
theorem rtake_rtake_concat (x : α) : (l.rtake n ++ [x]).rtake n = (l ++ [x]).rtake n := by
  obtain ⟨m, rfl⟩ : ∃ m, n = m + 1 := ⟨n - 1, by omega⟩
  rw [List.rtake_concat_succ, List.rtake_concat_succ]
  simp only [List.rtake_eq_reverse_take_reverse, List.reverse_reverse, List.take_take, Nat.min_eq_left (Nat.le_succ m)]

end

/-! ## 2. In memory -/

/-- The lines that count among some lines: without blanks at their ends, and not empty. -/
def told (lines : List Typed) : List Typed := (lines.map Typed.trim).filter fun l => !l.isEmpty

/-- The recent lines: the last ones that count, repetitions left out, as many as the limit says and at least one. -/
def recent (limit : Int) (lines : List Typed) : List Typed :=
  ((told lines).destutter (· ≠ ·)).rtake (max 1 limit).toNat

/-- Adds a line, whether or not it can be written; the writing of the file goes as it is said to. -/
def push (s : History × Disk) (line : Typed × Disk.Writing) : History × Disk :=
  let kept := s.1.append line.1 s.2 line.2
  (kept.history, kept.disk)

/-- Adds lines one after the other. -/
def appendAll (h : History) (lines : List (Typed × Disk.Writing)) (d : Disk) : History × Disk :=
  lines.foldl push (h, d)

theorem appendAll_concat (h : History) (lines : List (Typed × Disk.Writing)) (line : Typed × Disk.Writing) (d : Disk) :
    h.appendAll (lines ++ [line]) d = push (h.appendAll lines d) line := by
  simp only [appendAll, List.foldl_append, List.foldl_cons, List.foldl_nil]

theorem limitOf_eq (limit : Int) : limitOf limit = (max 1 limit).toNat := by
  unfold limitOf
  omega

theorem told_concat (lines : List Typed) (line : Typed) : told (lines ++ [line]) =
    if line.trim.isEmpty then told lines else told lines ++ [line.trim] := by
  unfold told
  rw [List.map_append, List.filter_append]
  by_cases h : line.trim.isEmpty = true <;> simp [h]

/-- What a line does to a history: it is held as the last one, or the history stays as it is. -/
theorem history_append (h : History) (line : Typed) (d : Disk) (w : Disk.Writing) : (h.append line d w).history =
    if h.isNew line.trim then { h with entries := (h.entries ++ [line.trim]).rtake h.limit } else h := by
  unfold append
  simp only
  split <;> rfl

theorem isNew_iff {h : History} {line : Typed} :
    h.isNew line = true ↔ line.isEmpty = false ∧ h.entries.getLast? ≠ some line := by
  simp [isNew]

/-- The path and the limit of a history stay. -/
theorem fixed_appendAll (h : History) (lines : List (Typed × Disk.Writing)) (d : Disk) :
    (h.appendAll lines d).1.path = h.path ∧ (h.appendAll lines d).1.limit = h.limit := by
  induction lines using List.reverseRecOn with
  | nil => exact ⟨rfl, rfl⟩
  | append_singleton lines line ih =>
    rw [appendAll_concat, push, history_append]
    split <;> exact ih

/-- What is held in memory after lines were typed. -/
theorem entries_appendAll {h : History} (hempty : h.entries = []) (hlimit : 0 < h.limit)
    (lines : List (Typed × Disk.Writing)) (d : Disk) :
    (h.appendAll lines d).1.entries = ((told (lines.map Prod.fst)).destutter (· ≠ ·)).rtake h.limit := by
  -- The induction is on the lines from the last one, which is compared with the last that is held.
  induction lines using List.reverseRecOn with
  | nil => exact hempty.trans (List.rtake_nil _).symm
  | append_singleton lines line ih =>
    have hlast : (h.appendAll lines d).1.entries.getLast? = (told (lines.map Prod.fst)).getLast? := by
      rw [ih, getLast?_rtake hlimit, getLast?_destutter]
    rw [appendAll_concat, push, history_append, List.map_append, List.map_singleton, told_concat]
    by_cases hblank : line.1.trim.isEmpty = true
    · rw [if_neg (by simp [isNew_iff, hblank]), if_pos hblank, ih]
    · rw [if_neg hblank, destutter_concat]
      by_cases hagain : (told (lines.map Prod.fst)).getLast? = some line.1.trim
      · rw [if_neg (by simp [isNew_iff, hlast, hagain]), if_pos hagain, ih]
      · rw [if_pos (isNew_iff.mpr ⟨by simpa using hblank, by rwa [hlast]⟩), if_neg hagain]
        show List.rtake _ _ = _
        rw [(fixed_appendAll h lines d).2, ih, rtake_rtake_concat hlimit]

/-! ## 3. In the file -/

end History

namespace Typed

/-- A text has no line end. -/
def IsSingleLine (t : Typed) : Prop := ∀ c, .char c ∈ t → Text.isLineEnd c = false

theorem IsSingleLine.trim {t : Typed} (h : t.IsSingleLine) : t.trim.IsSingleLine :=
  fun c hc => h c (Text.mem_of_mem_trimBy hc)

theorem mem_chars {t : Typed} {c : Char} (h : c ∈ t.chars) : .char c ∈ t := by
  obtain ⟨l, hl, hc⟩ := List.mem_filterMap.mp h
  cases l with
  | char c' =>
    cases hc
    exact hl
  | stray half => cases hc

/-- A text without strays is made of its characters. -/
theorem ofString_chars {t : Typed} (h : t.isClean = true) : ofString (String.ofList t.chars) = t := by
  rw [ofString, String.toList_ofList, chars]
  induction t with
  | nil => rfl
  | cons l r ih =>
    obtain ⟨hl, hr⟩ := (Bool.and_eq_true _ _).mp h
    cases l with
    | char c => simpa [Letter.char?] using ih hr
    | stray half => cases hl

theorem isClean_append (t u : Typed) : isClean (t ++ u) = (t.isClean && u.isClean) := List.all_append

end Typed

namespace History

/-- A line as a history holds it, on a line of its own. -/
structure IsHeld (line : Typed) : Prop where
  trimmed : line.trim = line
  nonempty : line.isEmpty = false
  single : line.IsSingleLine

theorem isHeld_of_mem_told {lines : List Typed} (hlines : ∀ l ∈ lines, l.IsSingleLine) : ∀ l ∈ told lines, IsHeld l := by
  intro l hl
  obtain ⟨hmem, hnonempty⟩ := List.mem_filter.mp hl
  obtain ⟨line, hline, rfl⟩ := List.mem_map.mp hmem
  exact ⟨Text.trimBy_trimBy _ line, by simpa using hnonempty, (hlines line hline).trim⟩

theorem told_of_isHeld {ls : List Typed} (h : ∀ l ∈ ls, IsHeld l) : told ls = ls := by
  have htrim : ls.map Typed.trim = ls := by
    conv_rhs => rw [← List.map_id ls]
    exact List.map_congr_left fun l hl => (h l hl).trimmed
  rw [told, htrim, List.filter_eq_self]
  intro l hl
  rw [(h l hl).nonempty]
  rfl

/-- The text of lines is each line with a line feed after it. -/
theorem textOf_cons (l : Typed) (ls : List Typed) : textOf (l :: ls) = (l :: ls).flatMap fun l => l ++ [.char '\n'] := by
  induction ls generalizing l with
  | nil => simp [textOf]
  | cons l' ls ih =>
    have hsplit : textOf (l :: l' :: ls) = l ++ [.char '\n'] ++ textOf (l' :: ls) := by
      simp only [textOf, List.intercalate_cons_cons, List.append_assoc]
    rw [hsplit, ih l']
    rfl

theorem isClean_textOf (ls : List Typed) : (textOf ls).isClean = ls.all (·.isClean) := by
  cases ls with
  | nil => rfl
  | cons l ls =>
    rw [textOf_cons]
    induction l :: ls with
    | nil => rfl
    | cons l ls ih =>
      have hfeed : Typed.isClean [.char '\n'] = true := rfl
      rw [List.flatMap_cons, Typed.isClean_append, Typed.isClean_append, ih, hfeed, Bool.and_true, List.all_cons]

theorem chars_textOf_cons (l : Typed) (ls : List Typed) :
    (textOf (l :: ls)).chars = ((l :: ls).map Typed.chars).flatMap fun l => l ++ ['\n'] := by
  rw [textOf_cons, Typed.chars, List.filterMap_flatMap, List.flatMap_map]
  congr 1
  funext l
  rw [List.filterMap_append]
  rfl

theorem linesOf_eq (text : String) : linesOf text = told ((Text.lines text).map Typed.ofString) := by
  rw [linesOf, told, List.map_map]
  rfl

/-- Lines as a history holds them are read back from their text, if all of them are text. -/
theorem linesOf_textOf {ls : List Typed} (h : ∀ l ∈ ls, IsHeld l) (hclean : ∀ l ∈ ls, l.isClean = true) :
    linesOf (String.ofList (textOf ls).chars) = ls := by
  cases ls with
  | nil => decide
  | cons l ls =>
    have hsingle : ∀ cs ∈ (l :: ls).map Typed.chars, ∀ c ∈ cs, Text.isLineEnd c = false := by
      intro cs hcs c hc
      obtain ⟨line, hline, rfl⟩ := List.mem_map.mp hcs
      exact (h line hline).single c (Typed.mem_chars hc)
    have hlines : (Text.lines (String.ofList (textOf (l :: ls)).chars)).map Typed.ofString = l :: ls := by
      rw [Text.lines, String.toList_ofList, chars_textOf_cons, Text.linesFrom_flatMap hsingle, List.map_map, List.map_map]
      conv_rhs => rw [← List.map_id (l :: ls)]
      exact List.map_congr_left fun line hline => Typed.ofString_chars (hclean line hline)
    rw [linesOf_eq, hlines, told_of_isHeld h]

theorem unifyLineEnds_textOf {ls : List Typed} (h : ∀ l ∈ ls, IsHeld l) :
    Text.unifyLineEnds (textOf ls).chars = (textOf ls).chars := by
  cases ls with
  | nil => decide
  | cons l ls =>
    rw [chars_textOf_cons]
    apply Text.unifyLineEnds_of_forall
    intro c hc
    obtain ⟨cs, hcs, hc⟩ := List.mem_flatMap.mp hc
    obtain ⟨line, hline, rfl⟩ := List.mem_map.mp hcs
    rintro rfl
    rcases List.mem_append.mp hc with hc | hc
    · cases (h line hline).single '\r' (Typed.mem_chars hc)
    · cases List.mem_singleton.mp hc

/-- What the file is left with when lines are saved: nothing, if there is a stray in one of them. -/
def savedAs (lines : List Typed) : Bytes := if lines.all (·.isClean) then Text.Utf8.encode (textOf lines).chars else []

/-- A path leads from a tree to the file of a history that shows its lines: the file holds them as far as they can be
written, or there are none, and there is no file to be read but one can be written. -/
inductive Shown (h : History) (d : Disk) (p : Path) : Prop where
  | nothing {f : Disk.Fault} (hentries : h.entries = []) (hread : d.read p = .error f) (hpossible : f ≠ .impossibleName)
      (hwritable : d.IsWritable p)
  | file (hwritten : d.Written p (savedAs h.entries))

theorem Shown.isWritable {h : History} {d : Disk} {p : Path} : h.Shown d p → d.IsWritable p
  | nothing _ _ _ hwritable => hwritable
  | file hwritten => hwritten.isWritable

/-- The lines are saved in a file that can be written. -/
theorem written_save {h : History} {d : Disk} {p : Path} (hpath : h.path = some p) (hwritable : d.IsWritable p) :
    (h.save d .whole).1.Written p (savedAs h.entries) ∧ (h.save d .whole).1.homes = d.homes := by
  obtain ⟨d₁, place, d₂, hmade, hopen, hempty, hwritten⟩ := hwritable.exists_written
  simp only [save, hpath, hmade, hopen]
  cases hencode : (textOf h.entries).encode with
  | error f =>
    have hstray : h.entries.all (·.isClean) = false := by
      rw [← isClean_textOf, Bool.eq_false_iff]
      intro hclean
      rw [Typed.encode_eq_ok_iff.mpr ⟨hclean, rfl⟩] at hencode
      cases hencode
    rw [savedAs, hstray]
    exact hempty
  | ok content =>
    obtain ⟨hclean, rfl⟩ := Typed.encode_eq_ok_iff.mp hencode
    rw [isClean_textOf] at hclean
    rw [savedAs, hclean]
    exact hwritten _ .whole

theorem disk_append (h : History) (line : Typed) (d : Disk) (w : Disk.Writing) : (h.append line d w).disk =
    if h.isNew line.trim then ((h.append line d w).history.save d w).1 else d := by
  rw [history_append]
  unfold append
  simp only
  split <;> rfl

/-- After one more line the file shows what is held in memory. -/
theorem Shown.append {h : History} {d : Disk} {p : Path} (hshown : h.Shown d p) (hpath : h.path = some p)
    (line : Typed) :
    (h.append line d .whole).history.Shown (h.append line d .whole).disk p ∧
      (h.append line d .whole).disk.homes = d.homes := by
  rw [disk_append]
  by_cases hnew : h.isNew line.trim = true
  · rw [if_pos hnew]
    have hpath' : (h.append line d .whole).history.path = some p := by
      rw [history_append, if_pos hnew]
      exact hpath
    obtain ⟨hwritten, hhomes⟩ := written_save hpath' hshown.isWritable
    exact ⟨.file hwritten, hhomes⟩
  · rw [if_neg hnew, history_append, if_neg hnew]
    exact ⟨hshown, rfl⟩

/-- After every line the file shows what is held in memory. -/
theorem Shown.appendAll {h : History} {d : Disk} {p : Path} (hshown : h.Shown d p) (hpath : h.path = some p)
    {lines : List (Typed × Disk.Writing)} (hwhole : ∀ l ∈ lines, l.2 = .whole) :
    (h.appendAll lines d).1.Shown (h.appendAll lines d).2 p ∧ (h.appendAll lines d).2.homes = d.homes := by
  induction lines using List.reverseRecOn with
  | nil => exact ⟨hshown, rfl⟩
  | append_singleton lines line ih =>
    obtain ⟨hbefore, hhomesBefore⟩ := ih fun l hl => hwhole l (List.mem_append_left _ hl)
    rw [appendAll_concat, push, hwhole line (List.mem_append_right _ List.mem_cons_self)]
    obtain ⟨hstep, hhomes⟩ := hbefore.append ((fixed_appendAll h lines d).1.trans hpath) line.1
    exact ⟨hstep, hhomes.trans hhomesBefore⟩

/-- A path at which there is no file to be read holds no lines. -/
theorem load_of_read_eq_error {d : Disk} {p : Path} {f : Disk.Fault} (hread : d.read p = .error f)
    (hpossible : f ≠ .impossibleName) : load d p = .ok [] := by
  rw [load, Disk.readText, hread]
  cases f with
  | impossibleName => exact absurd rfl hpossible
  | _ => rfl

/-- The lines that come back from the file when lines were saved in it. -/
def restored (lines : List Typed) : List Typed := if lines.all (·.isClean) then lines else []

theorem restored_eq_self_iff {lines : List Typed} : restored lines = lines ↔ ∀ l ∈ lines, l.isClean = true := by
  rw [← List.all_eq_true, restored]
  by_cases hclean : lines.all (·.isClean) = true
  · rw [if_pos hclean]
    exact iff_of_true rfl hclean
  · rw [if_neg hclean]
    refine iff_of_false ?_ hclean
    rintro rfl
    exact hclean rfl

theorem length_restored_le (lines : List Typed) : (restored lines).length ≤ lines.length := by
  unfold restored
  split
  · exact Nat.le_refl _
  · exact Nat.zero_le _

/-- Which lines are read from a file that shows those of a history. -/
theorem Shown.load {h : History} {d : Disk} {p : Path} (hshown : h.Shown d p) (hheld : ∀ l ∈ h.entries, IsHeld l) :
    load d p = .ok (restored h.entries) := by
  cases hshown with
  | nothing hentries hread hpossible hwritable => rw [hentries, load_of_read_eq_error hread hpossible]; rfl
  | file hwritten =>
    unfold savedAs at hwritten
    unfold restored
    by_cases hclean : h.entries.all (·.isClean) = true
    · rw [if_pos hclean] at hwritten ⊢
      have hread : d.read p = .ok (Text.Utf8.ofString (String.ofList (textOf h.entries).chars)) := by
        rw [hwritten.read, Text.Utf8.ofString, String.toList_ofList]
      have htext := Disk.readText_of_read hread (by rw [String.toList_ofList]; exact unifyLineEnds_textOf hheld)
      rw [History.load, htext]
      show Except.ok (linesOf (String.ofList (textOf h.entries).chars)) = _
      rw [linesOf_textOf hheld (List.all_eq_true.mp hclean)]
    · rw [if_neg hclean] at hwritten ⊢
      rw [History.load, Disk.readText, hwritten.read]
      rfl

/-! ## 4. Both -/

/-- A history starts with no file: it is kept in memory only, or there is no file to be read at its path. -/
def StartsEmpty (d : Disk) : Option Path → Prop
  | none => True
  | some p => ∃ q f, p.expandHome d.homes = .ok q ∧ d.read q = .error f ∧ f ≠ .impossibleName

/-- A history has a file, and the file can be written. -/
def IsKeepable (d : Disk) (path : Option Path) : Prop :=
  ∃ p q, path = some p ∧ p.expandHome d.homes = .ok q ∧ d.IsWritable q

/-- A history is read from a file with no more lines than the limit. -/
theorem read_of_load {d : Disk} {p q : Path} {lines : List Typed} {limit : Int} (hq : p.expandHome d.homes = .ok q)
    (hload : load d q = .ok lines) (hlength : lines.length ≤ limitOf limit) :
    read d (some p) limit = .ok ⟨some q, limitOf limit, lines⟩ := by
  simp only [read, hq, hload, Except.map, keep, Nat.sub_eq_zero_of_le hlength, List.drop_zero]

/-- A history starts without lines where there is no file. -/
theorem read_of_startsEmpty {d : Disk} {path : Option Path} (hstart : StartsEmpty d path) (limit : Int) :
    ∃ h, read d path limit = .ok h ∧ h.entries = [] ∧ h.limit = limitOf limit := by
  cases path with
  | none => exact ⟨_, rfl, rfl, rfl⟩
  | some p =>
    obtain ⟨q, f, hq, hread, hpossible⟩ := hstart
    exact ⟨_, read_of_load hq (load_of_read_eq_error hread hpossible) (Nat.zero_le _), rfl, rfl⟩

/-- A history that starts with no file holds the recent ones of all lines that were typed, whatever these are and however
the writing of its file goes. If its file can be written and is, and the lines have no line ends of their own, a new history
of that file is the same just when all recent lines are text; otherwise it holds no lines. -/
theorem holds_recent {d : Disk} {path : Option Path} (hstart : StartsEmpty d path) (limit : Int) :
    ∃ h, read d path limit = .ok h ∧ ∀ lines : List (Typed × Disk.Writing),
      let kept := h.appendAll lines d
      kept.1.entries = recent limit (lines.map Prod.fst) ∧
      (IsKeepable d path → (∀ l ∈ lines, l.1.IsSingleLine ∧ l.2 = .whole) →
        (read kept.2 path limit = .ok kept.1 ↔ ∀ l ∈ recent limit (lines.map Prod.fst), l.isClean = true) ∧
        ((∃ l ∈ recent limit (lines.map Prod.fst), l.isClean = false) →
          read kept.2 path limit = .ok { kept.1 with entries := [] })) := by
  obtain ⟨h, hread, hempty, hlimit⟩ := read_of_startsEmpty hstart limit
  refine ⟨h, hread, fun lines => ?_⟩
  intro kept
  have hentries : kept.1.entries = recent limit (lines.map Prod.fst) := by
    rw [entries_appendAll hempty (hlimit ▸ limit_pos limit), hlimit, limitOf_eq]
    rfl
  refine ⟨hentries, ?_⟩
  rintro ⟨p, q, rfl, hq, hwritable⟩ hlines
  obtain ⟨q', f, hq', hnone, hpossible⟩ := hstart
  obtain rfl : q = q' := Except.ok.inj (hq.symm.trans hq')
  have hpath : h.path = some q := by
    rw [read_of_load hq (load_of_read_eq_error hnone hpossible) (Nat.zero_le _)] at hread
    cases hread
    rfl
  obtain ⟨hshown, hhomes⟩ :=
    (Shown.nothing hempty hnone hpossible hwritable).appendAll hpath fun l hl => (hlines l hl).2
  obtain ⟨hpathNow, hlimitNow⟩ := fixed_appendAll h lines d
  -- What is held is part of what was told, and not more than the limit.
  have hheld : ∀ l ∈ kept.1.entries, IsHeld l := by
    intro l hl
    rw [hentries] at hl
    refine isHeld_of_mem_told ?_ l ((List.destutter_sublist _ _).mem ((List.drop_suffix _ _).mem hl))
    intro line hline
    obtain ⟨typed, htyped, rfl⟩ := List.mem_map.mp hline
    exact (hlines typed htyped).1
  have hlength : kept.1.entries.length ≤ limitOf limit := by
    rw [hentries, limitOf_eq]
    exact length_keep_le _ _
  have hagain : read kept.2 (some p) limit = .ok { kept.1 with entries := restored kept.1.entries } := by
    rw [read_of_load (hhomes ▸ hq) (hshown.load hheld) (Nat.le_trans (length_restored_le _) hlength),
      ← hpath, ← hpathNow, ← hlimit, ← hlimitNow]
  rw [hagain, ← hentries]
  constructor
  · rw [← restored_eq_self_iff, Except.ok.injEq]
    exact ⟨fun hsame => congrArg History.entries hsame, fun hsame => by rw [hsame]⟩
  · rintro ⟨l, hl, hstray⟩
    have hnot : ¬ kept.1.entries.all (·.isClean) = true := by
      intro hall
      rw [List.all_eq_true.mp hall l hl] at hstray
      cases hstray
    rw [restored, if_neg hnot]

/-- A history of two lines in a file of the working directory, after five lines of which three count. -/
theorem holds_recent_of_five :
    let d : Disk := ⟨[], [], []⟩
    let path : Option Path := some ⟨"", ["h"]⟩
    let lines : List (Typed × Disk.Writing) := ["a", " a", "", "b", "c "].map fun l => (.ofString l, .whole)
    StartsEmpty d path ∧ IsKeepable d path ∧ (∀ l ∈ lines, l.1.IsSingleLine ∧ l.2 = .whole) ∧
      ∃ h, read d path 2 = .ok h ∧ (h.appendAll lines d).1.entries = ["b", "c"].map Typed.ofString ∧
        ∃ h', read (h.appendAll lines d).2 path 2 = .ok h' ∧ h'.entries = ["b", "c"].map Typed.ofString := by
  intro d path lines
  have hstart : StartsEmpty d path := ⟨⟨"", ["h"]⟩, .notFound, rfl, by decide, nofun⟩
  have hkeepable : IsKeepable d path := ⟨_, ⟨"", ["h"]⟩, rfl, rfl, d, _, _, rfl, rfl⟩
  have hlines : ∀ l ∈ lines, l.1.IsSingleLine ∧ l.2 = .whole := by
    have hall : (lines.all fun l => l.1.all fun c => !c.isIn Text.isLineEnd) = true := by decide
    intro l hl
    refine ⟨fun c hc => ?_, ?_⟩
    · simpa [Letter.isIn] using List.all_eq_true.mp (List.all_eq_true.mp hall l hl) _ hc
    · obtain ⟨text, -, rfl⟩ := List.mem_map.mp hl
      rfl
  obtain ⟨h, hread, hholds⟩ := holds_recent hstart 2
  obtain ⟨hentries, hagain⟩ := hholds lines
  have hrecent : recent 2 (lines.map Prod.fst) = ["b", "c"].map Typed.ofString := by decide
  refine ⟨hstart, hkeepable, hlines, h, hread, hentries.trans hrecent, _, ?_, hentries.trans hrecent⟩
  apply (hagain hkeepable hlines).1.mpr
  rw [hrecent]
  decide

/-- A line with a stray is held, but the lines cannot be written then, and the file is left empty. -/
theorem not_holds_stray :
    let d : Disk := ⟨[], [], []⟩
    let path : Option Path := some ⟨"", ["h"]⟩
    let line : Typed := [.stray 0x480]
    StartsEmpty d path ∧ IsKeepable d path ∧ line.IsSingleLine ∧
      ∃ h, read d path 5 = .ok h ∧ (h.append line d .whole).history.entries = [line] ∧
        (h.append line d .whole).fault = some ⟨0x480, 0, 1⟩ ∧
        ∃ h', read (h.append line d .whole).disk path 5 = .ok h' ∧ h'.entries = [] := by
  intro d path line
  refine ⟨⟨⟨"", ["h"]⟩, .notFound, rfl, by decide, nofun⟩, ⟨_, ⟨"", ["h"]⟩, rfl, rfl, d, _, _, rfl, rfl⟩, ?_, ?_⟩
  · intro c hc
    cases List.mem_singleton.mp hc
  · exact ⟨⟨some ⟨"", ["h"]⟩, 5, []⟩, rfl, rfl, rfl, ⟨some ⟨"", ["h"]⟩, 5, []⟩, rfl, rfl⟩

end History

end ContractShell
