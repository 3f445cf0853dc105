import ContractShell.Proofs.Files.Growth

/-!
Files that are written again and again.

A file can be written when its directory is there or can be made, and its path leads to no directory. Then it can be
written once more in the tree that this leaves, where it is read as it was written last, even if that writing broke off.

## Main statements

* `within_makeDirectories`: making directories takes nothing away.
* `isDirectory_makeDirectories`, `makeDirectories_of_isDirectory`: directories that were made are there, and then nothing
  is left to be made.
* `IsWritable.exists_written`: what a tree is after a file was written.
* `Written.isWritable`: a file that was written can be written again.
-/

namespace ContractShell.Disk

variable {d d' : Disk} {p : Path}

/-! ## 1. Directories -/

theorem makeDirectory_eq_ok_iff : d.makeDirectory p = .ok d' ↔
    ∃ place, d.placeOf p = .ok place ∧ d.find? place = none ∧ d' = d.add place .directory := by
  unfold makeDirectory
  cases hplace : d.placeOf p with
  | error f => simp
  | ok place =>
    cases hentry : d.find? place with
    | none => simp [hentry, eq_comm]
    | some e => simp [hentry]

theorem isDirectory_iff : d.isDirectory p = true ↔ ∃ place, d.placeOf p = .ok place ∧ d.find? place = some .directory := by
  unfold isDirectory
  cases d.placeOf p with
  | error f => simp
  | ok place => simp

theorem within_makeDirectory (h : d.makeDirectory p = .ok d') : d.Within d' := by
  obtain ⟨place, -, hfree, rfl⟩ := makeDirectory_eq_ok_iff.mp h
  exact .add hfree _

theorem isDirectory_makeDirectory (h : d.makeDirectory p = .ok d') : d'.isDirectory p = true := by
  have hwithin := within_makeDirectory h
  obtain ⟨place, hplace, hfree, rfl⟩ := makeDirectory_eq_ok_iff.mp h
  exact isDirectory_iff.mpr ⟨place, hwithin.placeOf hplace, find?_add_self d _ (ne_nil_of_find?_eq_none hfree)⟩

theorem Opens.isDirectory (h : d.Opens d') (hd : d.isDirectory p = true) : d'.isDirectory p = true := by
  obtain ⟨place, hplace, hentry⟩ := isDirectory_iff.mp hd
  exact isDirectory_iff.mpr ⟨place, h.placeOf hplace, h.directory hentry⟩

/-- Making directories takes nothing away, whatever comes of it. -/
theorem within_makeDirectoriesFrom (root : String) (names : List String) (d : Disk) :
    d.Within (makeDirectoriesFrom root names d).1 := by
  induction names with
  | nil => exact .refl d
  | cons name above ih =>
    unfold makeDirectoriesFrom
    simp only
    split
    next h => exact within_makeDirectory h
    next =>
      cases habove : makeDirectoriesFrom root above d with
      | mk d₁ outcome =>
        rw [habove] at ih
        cases outcome with
        | some f => exact ih
        | none =>
          simp only
          split
          next h => exact ih.trans (within_makeDirectory h)
          next => exact ih
    next => exact .refl d

theorem within_makeDirectories (d : Disk) (p : Path) : d.Within (d.makeDirectories p).1 :=
  within_makeDirectoriesFrom p.root p.names.reverse d

/-- Directories that were made are there. -/
theorem isDirectory_makeDirectoriesFrom {root : String} {names : List String}
    (h : makeDirectoriesFrom root names d = (d', none)) : d'.isDirectory ⟨root, names.reverse⟩ = true := by
  have hsettled {e e' : Disk} {q : Path} {f : Fault} (h : (e, if e.isDirectory q then none else some f) = (e', none)) :
      e'.isDirectory q = true := by
    by_cases hthere : e.isDirectory q = true
    · obtain ⟨rfl, -⟩ := Prod.mk.inj h
      exact hthere
    · rw [if_neg hthere] at h
      cases h
  cases names with
  | nil => exact hsettled h
  | cons name above =>
    unfold makeDirectoriesFrom at h
    simp only at h
    split at h
    next hmade =>
      cases h
      exact isDirectory_makeDirectory hmade
    next =>
      cases habove : makeDirectoriesFrom root above d with
      | mk d₁ outcome =>
        rw [habove] at h
        cases outcome with
        | some f => cases h
        | none =>
          simp only at h
          split at h
          next hmade =>
            cases h
            exact isDirectory_makeDirectory hmade
          next => exact hsettled h
    next => exact hsettled h

theorem isDirectory_makeDirectories (h : d.makeDirectories p = (d', none)) : d'.isDirectory p = true := by
  have hthere := isDirectory_makeDirectoriesFrom h
  rwa [List.reverse_reverse] at hthere

/-- Where a directory is there, nothing is left to be made. -/
theorem makeDirectories_of_isDirectory (h : d.isDirectory p = true) : d.makeDirectories p = (d, none) := by
  obtain ⟨place, hplace, hentry⟩ := isDirectory_iff.mp h
  have htaken : d.makeDirectory p = .error .exists := by
    simp only [makeDirectory, hplace, hentry, Option.isSome_some, if_true]
  unfold makeDirectories
  cases hnames : p.names.reverse with
  | nil =>
    have hroot : p = ⟨p.root, []⟩ := by rw [← List.reverse_eq_nil_iff.mp hnames]
    rw [makeDirectoriesFrom, ← hroot, if_pos h]
  | cons name above =>
    have hpath : (⟨p.root, (name :: above).reverse⟩ : Path) = p := by rw [← hnames, List.reverse_reverse]
    rw [makeDirectoriesFrom, hpath, htaken]
    simp only [h, if_true]

/-! ## 2. Files -/

theorem openEmpty_eq_ok_iff {place : Place} : d.openEmpty p = .ok (place, d') ↔
    d.placeOf p = .ok place ∧ d.find? place ≠ some .directory ∧ d' = d.add place (.file []) := by
  unfold openEmpty
  cases hplace : d.placeOf p with
  | error f => simp
  | ok q =>
    by_cases hentry : d.find? q = some .directory
    · simp only [if_pos hentry]
      refine ⟨nofun, ?_⟩
      rintro ⟨hq, hfile, -⟩
      cases hq
      exact absurd hentry hfile
    · simp only [if_neg hentry, Except.ok.injEq, Prod.mk.injEq]
      constructor
      · rintro ⟨rfl, rfl⟩
        exact ⟨rfl, hentry, rfl⟩
      · rintro ⟨rfl, -, rfl⟩
        exact ⟨rfl, rfl⟩

/-- A file can be written: its directory is there or can be made, and then the file can be opened in it. -/
def IsWritable (d : Disk) (p : Path) : Prop :=
  ∃ d' place d'', d.makeDirectories p.parent = (d', none) ∧ d'.openEmpty p = .ok (place, d'')

/-- A file was written: its directory is there, and it holds its content. -/
structure Written (d : Disk) (p : Path) (content : Bytes) : Prop where
  directory : d.isDirectory p.parent = true
  file : ∃ place, d.placeOf p = .ok place ∧ d.find? place = some (.file content)

theorem Written.read {content : Bytes} (h : d.Written p content) : d.read p = .ok content := read_eq_ok_iff.mpr h.file

/-- What a tree is after a file was opened in it, and then written with any content in any way. -/
theorem IsWritable.exists_written (h : d.IsWritable p) : ∃ d₁ place d₂,
    d.makeDirectories p.parent = (d₁, none) ∧ d₁.openEmpty p = .ok (place, d₂) ∧
      (d₂.Written p [] ∧ d₂.homes = d.homes) ∧
      ∀ content w, (d₂.put place content w).1.Written p (w.written content) ∧ (d₂.put place content w).1.homes = d.homes := by
  obtain ⟨d₁, place, d₂, hmade, hopen⟩ := h
  refine ⟨d₁, place, d₂, hmade, hopen, ?_⟩
  obtain ⟨hplace, hentry, rfl⟩ := openEmpty_eq_ok_iff.mp hopen
  have hwithin := within_makeDirectories d p.parent
  rw [hmade] at hwithin
  have hne : place ≠ [] := by
    rintro rfl
    exact hentry rfl
  -- The file takes the place of no directory, so its path leads where it led before.
  have hwritten : ∀ content, (d₁.add place (.file content)).Written p content := by
    intro content
    have hopens : d₁.Opens (d₁.add place (.file content)) := .add hentry _
    exact ⟨hopens.isDirectory (isDirectory_makeDirectories hmade), place, hopens.placeOf hplace, find?_add_self d₁ _ hne⟩
  refine ⟨⟨hwritten [], hwithin.homes⟩, fun content w => ?_⟩
  rw [put, add_add_self]
  exact ⟨hwritten _, hwithin.homes⟩

/-- A file that was written can be written again. -/
theorem Written.isWritable {content : Bytes} (h : d.Written p content) : d.IsWritable p := by
  obtain ⟨place, hplace, hfile⟩ := h.file
  refine ⟨d, place, d.add place (.file []), makeDirectories_of_isDirectory h.directory, ?_⟩
  exact openEmpty_eq_ok_iff.mpr ⟨hplace, by rw [hfile]; nofun, rfl⟩

end ContractShell.Disk
