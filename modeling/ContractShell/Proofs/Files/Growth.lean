import ContractShell.Files.Disk
import ContractShell.Proofs.Text.Utf8

/-!
Trees of files that only grow: what was there stays as it was.

A path that leads to a place leads to the same place in the grown tree, so a file is read from the same path as before.

## Main statements

* `creation_createNew`: what the creation of a file comes to, however its writing goes.
* `Disk.Opens.placeOf`: a path leads to the same place in a tree with the same directories, so in a grown one.
* `Disk.Within.read`: a file is read as before from a grown tree.
* `Disk.Gains.cons`: a file at a free place is one file more that a tree gains.
-/

namespace ContractShell.Disk

/-! ## 1. Files -/

/-- The tree with an entry holds the entry, except at the root. -/
theorem find?_add_self (d : Disk) (e : Entry) {place : Place} (h : place ≠ []) :
    (d.add place e).find? place = some e := by
  have hroot : place.isEmpty = false := by
    rw [List.isEmpty_eq_false_iff]
    exact h
  have hnone : (d.entries.filter (·.1 != place)).find? (·.1 == place) = none := by
    rw [List.find?_eq_none]
    intro x hx
    have hother := (List.mem_filter.mp hx).2
    simpa using hother
  simp [find?, add, hroot, List.find?_append, hnone]

/-- The last entry that is added at a place is the one that stays. -/
theorem add_add_self (d : Disk) (place : Place) (e e' : Entry) : (d.add place e).add place e' = d.add place e' := by
  simp [add, List.filter_filter]

/-- The device of a file has given out. -/
def Fault.isDevice : Fault → Bool
  | .device _ => true
  | _ => false

theorem isDevice_of_follow {d : Disk} {names : List String} {place : Place} {f : Fault}
    (h : d.follow place names = .error f) : f.isDevice = false := by
  induction names generalizing place with
  | nil => cases h
  | cons name rest ih =>
    rw [follow] at h
    split at h
    · cases h
      rfl
    · cases h
      rfl
    · split at h
      · exact ih h
      · split at h
        · cases h
          rfl
        · exact ih h

/-- No device gives out while a path is looked up. -/
theorem isDevice_of_placeOf {d : Disk} {p : Path} {f : Fault} (h : d.placeOf p = .error f) : f.isDevice = false := by
  unfold placeOf at h
  split at h
  · cases h
    rfl
  · split at h
    · cases h
      rfl
    · exact isDevice_of_follow h

/-- What the creation of a file comes to: nothing, or a file at a free place with as much as was written. -/
inductive Creation (d : Disk) (p : Path) (content : Bytes) (w : Writing) : Disk × Option Fault → Prop where
  | refused {f : Fault} (hf : f.isDevice = false) : Creation d p content w (d, some f)
  | made {place : Place} (hplace : d.placeOf p = .ok place) (hfree : d.find? place = none) :
      Creation d p content w (d.add place (.file (w.written content)), w.fault?)

theorem createNew_of_free {d : Disk} {p : Path} {place : Place} (hplace : d.placeOf p = .ok place)
    (hfree : d.find? place = none) (content : Bytes) (w : Writing) :
    d.createNew p content w = (d.add place (.file (w.written content)), w.fault?) := by
  have hopen : d.openNew p = .ok (place, d.add place (.file [])) := by
    rw [openNew, hplace]
    simp [hfree]
  rw [createNew, hopen]
  show (d.add place (.file [])).put place content w = _
  rw [put, add_add_self]

theorem creation_createNew (d : Disk) (p : Path) (content : Bytes) (w : Writing) :
    Creation d p content w (d.createNew p content w) := by
  cases hplace : d.placeOf p with
  | error f =>
    have hopen : d.createNew p content w = (d, some f) := by simp only [createNew, openNew, hplace]
    rw [hopen]
    exact .refused (isDevice_of_placeOf hplace)
  | ok place =>
    cases hentry : d.find? place with
    | none =>
      rw [createNew_of_free hplace hentry]
      exact .made hplace hentry
    | some e =>
      have hopen : d.createNew p content w = (d, some .exists) := by
        simp [createNew, openNew, hplace, hentry]
      rw [hopen]
      exact .refused rfl

theorem read_eq_ok_iff {d : Disk} {p : Path} {content : Bytes} :
    d.read p = .ok content ↔ ∃ place, d.placeOf p = .ok place ∧ d.find? place = some (.file content) := by
  unfold read
  cases hplace : d.placeOf p with
  | error f => simp
  | ok place =>
    cases hentry : d.find? place with
    | none => simp [hentry]
    | some e => cases e <;> simp [hentry]

/-- The text of a file whose lines end in line feeds is read from its bytes. -/
theorem readText_of_read {d : Disk} {p : Path} {text : String} (h : d.read p = .ok (Text.Utf8.ofString text))
    (hends : Text.unifyLineEnds text.toList = text.toList) : d.readText p = .ok text := by
  have hdecode : Text.Utf8.decode (Text.Utf8.ofString text) = .ok text.toList := Text.Utf8.decode_encode text.toList
  simp only [readText, h, hdecode, hends, String.ofList_toList]

/-- A free place is not the root. -/
theorem ne_nil_of_find?_eq_none {d : Disk} {place : Place} (h : d.find? place = none) : place ≠ [] := by
  rintro rfl
  cases h

/-! ## 2. Directories -/

/-- The directories of one tree are directories in the other, which has the same working directory. -/
structure Opens (d d' : Disk) : Prop where
  here : d'.here = d.here
  directory {place : Place} : d.find? place = some .directory → d'.find? place = some .directory

namespace Opens

variable {d d' : Disk}

/-- An entry that takes the place of no directory leaves the directories. -/
theorem add {place : Place} (h : d.find? place ≠ some .directory) (e : Entry) : d.Opens (d.add place e) where
  here := rfl
  directory := by
    intro other hother
    have hne : other ≠ place := by
      rintro rfl
      exact h hother
    rw [find?_add_other d e hne, hother]

theorem follow (h : d.Opens d') {names : List String} {place q : Place} (hq : d.follow place names = .ok q) :
    d'.follow place names = .ok q := by
  induction names generalizing place with
  | nil => exact hq
  | cons name rest ih =>
    rw [Disk.follow] at hq ⊢
    cases hentry : d.find? place with
    | none =>
      rw [hentry] at hq
      cases hq
    | some e =>
      rw [hentry] at hq
      cases e with
      | file content => cases hq
      | directory =>
        -- The directory that the name is looked up in is still there.
        rw [h.directory hentry]
        show (if _ then _ else if _ then _ else _) = _
        by_cases hup : name = ".."
        · rw [if_pos hup] at hq ⊢
          exact ih hq
        · rw [if_neg hup] at hq ⊢
          by_cases hlong : maxName < (Text.Utf8.ofString name).length
          · rw [if_pos hlong] at hq
            cases hq
          · rw [if_neg hlong] at hq ⊢
            exact ih hq

/-- A path leads to the same place in a tree with the same directories. -/
theorem placeOf (h : d.Opens d') {p : Path} {q : Place} (hq : d.placeOf p = .ok q) : d'.placeOf p = .ok q := by
  unfold Disk.placeOf at hq ⊢
  split at hq
  · cases hq
  next himpossible =>
    split at hq
    · cases hq
    next hlong =>
      rw [if_neg himpossible, if_neg hlong, h.here]
      exact h.follow hq

end Opens

/-! ## 3. Growth -/

/-- Everything in one tree is as it was in the other, which has the same working directory and homes. -/
structure Within (d d' : Disk) : Prop where
  here : d'.here = d.here
  homes : d'.homes = d.homes
  find? {place : Place} {e : Entry} : d.find? place = some e → d'.find? place = some e

namespace Within

variable {d d' d'' : Disk}

theorem refl (d : Disk) : d.Within d := ⟨rfl, rfl, id⟩

theorem trans (h : d.Within d') (h' : d'.Within d'') : d.Within d'' :=
  ⟨h'.here.trans h.here, h'.homes.trans h.homes, fun he => h'.find? (h.find? he)⟩

theorem opens (h : d.Within d') : d.Opens d' := ⟨h.here, h.find?⟩

/-- An entry at a free place takes nothing away. -/
theorem add {place : Place} (h : d.find? place = none) (e : Entry) : d.Within (d.add place e) where
  here := rfl
  homes := rfl
  find? := by
    intro other e' he
    have hne : other ≠ place := by
      rintro rfl
      rw [h] at he
      cases he
    rw [find?_add_other d e hne, he]

/-- A path leads to the same place in a grown tree. -/
theorem placeOf (h : d.Within d') {p : Path} {q : Place} (hq : d.placeOf p = .ok q) : d'.placeOf p = .ok q :=
  h.opens.placeOf hq

/-- A file is read as before from a grown tree. -/
theorem read (h : d.Within d') {p : Path} {content : Bytes} (hread : d.read p = .ok content) :
    d'.read p = .ok content := by
  obtain ⟨place, hplace, hfile⟩ := read_eq_ok_iff.mp hread
  exact read_eq_ok_iff.mpr ⟨place, h.placeOf hplace, h.find? hfile⟩

end Within

/-- A tree gains files at different places where the other has nothing, and everywhere else the two are the same. -/
structure Gains (d d' : Disk) (places : List Place) : Prop where
  nodup : places.Nodup
  new : ∀ place ∈ places, d.find? place = none ∧ ∃ content, d'.find? place = some (.file content)
  same : ∀ place, place ∉ places → d'.find? place = d.find? place

theorem Gains.refl (d : Disk) : d.Gains d [] := ⟨List.nodup_nil, by simp, fun _ _ => rfl⟩

/-- The places can be told in any order. -/
theorem Gains.of_perm {d d' : Disk} {places places' : List Place} (h : d.Gains d' places) (hperm : places.Perm places') :
    d.Gains d' places' where
  nodup := hperm.nodup_iff.mp h.nodup
  new := fun place hplace => h.new place (hperm.mem_iff.mpr hplace)
  same := fun place hplace => h.same place fun hmem => hplace (hperm.mem_iff.mp hmem)

/-- A file at a free place is one file more. -/
theorem Gains.cons {d d' : Disk} {place : Place} {content : Bytes} {places : List Place} (hfree : d.find? place = none)
    (h : (d.add place (.file content)).Gains d' places) : d.Gains d' (place :: places) := by
  have hfile := find?_add_self d (.file content) (ne_nil_of_find?_eq_none hfree)
  -- The later places are free in the tree with this file, so none of them is this one.
  have hother : ∀ q ∈ places, q ≠ place := by
    rintro q hq rfl
    rw [(h.new q hq).1] at hfile
    cases hfile
  have hnot : place ∉ places := fun hmem => hother place hmem rfl
  refine ⟨List.nodup_cons.mpr ⟨hnot, h.nodup⟩, ?_, ?_⟩
  · rw [List.forall_mem_cons]
    refine ⟨⟨hfree, content, (h.same place hnot).trans hfile⟩, fun q hq => ?_⟩
    rw [← find?_add_other d (.file content) (hother q hq)]
    exact h.new q hq
  · intro q hq
    rw [List.mem_cons, not_or] at hq
    rw [h.same q hq.2, find?_add_other d (.file content) hq.1]

end ContractShell.Disk
