import ContractShell.Proofs.Settings.Loading
import ContractShell.Proofs.Yaml.Likeness

/-!
Which source a setting comes from.

A setting is what the highest source says that gives it, and nothing else plays a part: not what lower sources give for it,
and not what any source gives for the other settings. Two loadings of settings that agree on that source agree on the
setting.

## Main statements

* `get_of_load`: a setting that is loaded, by what the highest source gives.
* `get_eq_of_highest`: loadings that agree on the highest source of a setting agree on the setting.
-/

namespace ContractShell.Settings

/-! ## 1. The highest source -/

/-- A section of the file, unless the file or the section cannot be read. -/
def Sources.section? (s : Sources) (d : Disk) (name : String) : Option Yaml.Document := do
  let (p, isRequired) ← (s.path d).toOption
  let file ← (loadFile d p isRequired).toOption
  (sectionOf file name p).toOption

/-- What the highest source gives for a setting: a value that is given for the start, a variable of the environment that
is not empty, or the section of the file. -/
def Sources.highest (s : Sources) (d : Disk) (x : Setting) : Option Yaml.Document :=
  firstOf (x.candidates s ((s.section? d x.sectionName).getD .blank))

/-! ## 2. Alike values are read alike -/

theorem number?_eq_of_alike {R : Nat → Nat → Prop} {v w : Yaml.Value} (h : Yaml.Value.Alike R v w) :
    number? v = number? w := by
  cases h <;> rfl

theorem integer?_eq_of_alike {R : Nat → Nat → Prop} {v w : Yaml.Value} (h : Yaml.Value.Alike R v w) :
    integer? v = integer? w := by
  cases h <;> rfl

/-- Alike values are read as the same. -/
theorem Reading.read_eq_of_alike (homes : Path.Homes) (r : Reading) {v w : Yaml.Document} (h : v.Alike w) :
    r.read homes v = r.read homes w := by
  have hroot : ∃ R, Yaml.Value.Alike R v.root w.root := h.imp fun _ hR => hR.2
  obtain ⟨R, hroot⟩ := hroot
  cases r with
  | endpoint => rw [read, read, h.shown?_eq]
  | number => rw [read, read, number?_eq_of_alike hroot]
  | integer minimum => rw [read, read, integer?_eq_of_alike hroot]
  | path => rw [read, read, h.shown?_eq]
  | paths => rw [read, read, h.shownItems?_eq]

theorem bind_read_eq_of_alike (homes : Path.Homes) (r : Reading) {v w : Option Yaml.Document}
    (h : Option.Rel Yaml.Document.Alike v w) : v.bind (r.read homes) = w.bind (r.read homes) := by
  cases h with
  | none => rfl
  | some h => exact r.read_eq_of_alike homes h

/-- Settings that alike values are given for are the same. -/
theorem Setting.settled_eq_of_alike (homes : Path.Homes) (x : Setting) {v w : Option Yaml.Document}
    (h : Option.Rel Yaml.Document.Alike v w) : x.settled homes v = x.settled homes w := by
  cases x <;> rw [settled, settled, bind_read_eq_of_alike homes _ h]

/-! ## 3. Precedence -/

/-- A setting that is loaded is what the highest source gives for it, or the default. -/
theorem get_of_load {s : Sources} {d : Disk} {c : Settings} (h : load s d = .ok c) (x : Setting) :
    c.get x = x.settled d.homes (s.highest d x) := by
  have hload := h
  unfold load at hload
  obtain ⟨⟨p, isRequired⟩, hp, hload⟩ := of_bind_eq_ok hload
  obtain ⟨file, hfile, hload⟩ := of_bind_eq_ok hload
  obtain ⟨rpc, hrpc, hload⟩ := of_bind_eq_ok hload
  obtain ⟨shell, hshell, -⟩ := of_bind_eq_ok hload
  have hsection : s.section? d x.sectionName = some (x.part rpc shell) := by
    unfold Sources.section?
    rw [hp]
    change ((loadFile d p isRequired).toOption.bind fun file => (sectionOf file x.sectionName p).toOption) = _
    rw [hfile]
    change (sectionOf file x.sectionName p).toOption = _
    cases x with
    | endpoint | timeout | rcLimit => exact congrArg Except.toOption hrpc
    | historyPath | historySize | rcFiles => exact congrArg Except.toOption hshell
  have hgoes := load_goes hp hfile hrpc hshell
  unfold Goes at hgoes
  split at hgoes
  · obtain ⟨f, hf, -⟩ := hgoes
    rw [h] at hf
    cases hf
  · obtain ⟨c', hc', hget⟩ := hgoes
    rw [h] at hc'
    cases hc'
    rw [hget x, Sources.highest, hsection, Option.getD_some]

/-- Two loadings that agree on what the highest source gives for a setting agree on the setting, whatever else their
sources give. -/
theorem get_eq_of_highest {s s' : Sources} {d d' : Disk} {c c' : Settings} (h : load s d = .ok c)
    (h' : load s' d' = .ok c') (hhomes : d.homes = d'.homes) {x : Setting}
    (hx : Option.Rel Yaml.Document.Alike (s.highest d x) (s'.highest d' x)) : c.get x = c'.get x := by
  rw [get_of_load h x, get_of_load h' x, ← hhomes]
  exact x.settled_eq_of_alike d.homes hx

/-- A size of the history that is given for the start. -/
def sizeGiven : Sources := ⟨[("history_size", .ofValue (.int 5))], [], none, none⟩

/-- The same size, beside other values for it and for another setting. -/
def sizeGivenAgain : Sources :=
  ⟨[("rpc_timeout", .ofValue (.int 3)), ("history_size", .ofValue (.int 5))], [(historySizeVariable, "6")],
    some "settings.yaml", none⟩

/-- A user with a home directory and no files. -/
def emptyHome : Disk := ⟨[], [], [("", "/home")]⟩

/-- A file of settings. -/
def fileAtHand : Disk :=
  ⟨[(["settings.yaml"], .file (Text.Utf8.ofString "shell: \x7bhistory_size: 7, history: lines\x7d"))], [],
    [("", "/home")]⟩

/-- The size that is given for the start counts, with and without others in the environment and the file. -/
theorem get_eq_of_highest_sizeGiven :
    ∃ c c', load sizeGiven emptyHome = .ok c ∧ load sizeGivenAgain fileAtHand = .ok c' ∧
      c.get .historySize = c'.get .historySize := by
  obtain ⟨c, hc⟩ := isOk_iff.mp (show (load sizeGiven emptyHome).isOk = true by decide +kernel)
  obtain ⟨c', hc'⟩ := isOk_iff.mp (show (load sizeGivenAgain fileAtHand).isOk = true by decide +kernel)
  have hhighest : sizeGiven.highest emptyHome .historySize = some (.ofValue (.int 5)) := rfl
  have hhighest' : sizeGivenAgain.highest fileAtHand .historySize = some (.ofValue (.int 5)) := rfl
  refine ⟨c, c', hc, hc', get_eq_of_highest hc hc' rfl ?_⟩
  rw [hhighest, hhighest']
  exact .some (.refl _)

end ContractShell.Settings
