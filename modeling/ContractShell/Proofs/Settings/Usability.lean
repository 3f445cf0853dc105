import ContractShell.Proofs.Settings.Loading

/-!
When loading settings ends well.

Settings are usable if the endpoint is one, the timeout is more than nothing, and the limits are within their bounds.
Loading should end with usable settings or with a fault that says what is wrong with the settings given. Two things keep
it from that: a value that is refused can go astray, and a timeout that is not a number is not refused, as it is not at most
zero either.

## Main statements

* `usable_of_get`: settings that were read from values are usable, but for a timeout that is not a number.
* `loadsUsably_iff`: what it takes for loading to end well.
-/

namespace ContractShell

/-- The number is greater than zero. -/
def Binary64.isPositive : Binary64 → Bool
  | .nan => false
  | .infinite negative => !negative
  | .finite negative m _ => !negative && m != 0

/-- A number is greater than zero unless it is at most zero or not a number. -/
theorem Binary64.isPositive_iff (x : Binary64) : x.isPositive = true ↔ x.notAtMostZero = true ∧ x ≠ .nan := by
  cases x with
  | nan => simp [isPositive]
  | infinite negative => simp [isPositive, notAtMostZero]
  | finite negative m e => simp [isPositive, notAtMostZero]

namespace Settings

/-! ## 1. Usable settings -/

/-- Settings that a shell can work with. -/
structure Usable (c : Settings) : Prop where
  endpoint : ∀ text, c.url = some text →
    ∃ u, Url.ofText text = .ok u ∧ (u.scheme = "http" ∨ u.scheme = "https") ∧ u.host ≠ []
  timeout : c.timeout.isPositive = true
  rcLimit : 0 ≤ c.rcLimit
  historySize : 1 ≤ c.historySize

/-- Loading ends with a fault of the settings or with usable settings. -/
structure LoadsUsably (s : Sources) (d : Disk) : Prop where
  refused : ∀ f, load s d = .error f → f.isExpected = true
  usable : ∀ c, load s d = .ok c → c.Usable

theorem loadsUsably_of_error {s : Sources} {d : Disk} {f : Fault} (h : load s d = .error f) :
    LoadsUsably s d ↔ f.isExpected = true := by
  constructor
  · intro hloads
    exact hloads.refused f h
  · intro hf
    refine ⟨fun f' h' => ?_, fun c h' => ?_⟩
    · rw [h] at h'
      cases h'
      exact hf
    · rw [h] at h'
      cases h'

theorem loadsUsably_of_ok {s : Sources} {d : Disk} {c : Settings} (h : load s d = .ok c) :
    LoadsUsably s d ↔ c.Usable := by
  constructor
  · intro hloads
    exact hloads.usable c h
  · intro hc
    refine ⟨fun f h' => ?_, fun c' h' => ?_⟩
    · rw [h] at h'
      cases h'
    · rw [h] at h'
      cases h'
      exact hc

/-! ## 2. What values are read as -/

theorem Reading.read_endpoint {homes : Path.Homes} {v : Yaml.Document} {text : String}
    (h : Reading.endpoint.read homes v = some text) :
    ∃ u, Url.ofText text = .ok u ∧ (u.scheme = "http" ∨ u.scheme = "https") ∧ u.host ≠ [] := by
  obtain ⟨shown, -, hurl⟩ := Option.bind_eq_some_iff.mp h
  unfold Url.endpoint at hurl
  cases hu : Url.ofText shown with
  | error f =>
    rw [hu] at hurl
    cases hurl
  | ok u =>
    rw [hu] at hurl
    change (if u.isEndpoint then Except.ok shown else Except.error (Url.Fault.notEndpoint shown)).toOption = _ at hurl
    by_cases hendpoint : u.isEndpoint = true
    · rw [if_pos hendpoint] at hurl
      cases hurl
      exact ⟨u, hu, (Url.isEndpoint_iff u).mp hendpoint⟩
    · rw [if_neg hendpoint] at hurl
      cases hurl

theorem Reading.read_number {homes : Path.Homes} {v : Yaml.Document} {x : Binary64}
    (h : Reading.number.read homes v = some x) : x.notAtMostZero = true :=
  (Option.filter_eq_some_iff.mp h).2

theorem Reading.read_integer {homes : Path.Homes} {minimum : Int} {v : Yaml.Document} {n : Int}
    (h : (Reading.integer minimum).read homes v = some n) : minimum ≤ n :=
  of_decide_eq_true (Option.filter_eq_some_iff.mp h).2

-- What is not read takes its default, which is within the bounds as well.
theorem getD_of_read {α : Type} {P : α → Prop} {o : Option α} {default : α} (hdefault : P default)
    (h : ∀ a, o = some a → P a) : P (o.getD default) := by
  cases o with
  | none => exact hdefault
  | some a => exact h a rfl

/-- Settings that were read from values are usable just when the timeout is a number. -/
theorem usable_of_get {homes : Path.Homes} {values : Setting → Option Yaml.Document} {c : Settings}
    (h : ∀ x : Setting, c.get x = x.settled homes (values x)) :
    c.Usable ↔ Setting.timeout.settled homes (values .timeout) ≠ .nan := by
  have hendpoint : c.url = (values .endpoint).bind (Reading.endpoint.read homes) := h .endpoint
  have htimeout : c.timeout = Setting.timeout.settled homes (values .timeout) := h .timeout
  have hlimit : c.rcLimit = ((values .rcLimit).bind ((Reading.integer 0).read homes)).getD defaultRcLimit := h .rcLimit
  have hsize : c.historySize = ((values .historySize).bind ((Reading.integer 1).read homes)).getD defaultHistorySize :=
    h .historySize
  have hpositive : (Setting.timeout.settled homes (values .timeout)).notAtMostZero = true := by
    refine getD_of_read (P := fun x : Binary64 => x.notAtMostZero = true) (by decide) fun x hx => ?_
    obtain ⟨v, -, hread⟩ := Option.bind_eq_some_iff.mp hx
    exact Reading.read_number hread
  constructor
  · intro husable
    rw [← htimeout]
    exact ((Binary64.isPositive_iff _).mp husable.timeout).2
  · intro hnumber
    refine ⟨?endpoint, ?timeout, ?rcLimit, ?historySize⟩
    case endpoint =>
      intro text htext
      rw [hendpoint] at htext
      obtain ⟨v, -, hread⟩ := Option.bind_eq_some_iff.mp htext
      exact Reading.read_endpoint hread
    case timeout =>
      rw [htimeout]
      exact (Binary64.isPositive_iff _).mpr ⟨hpositive, hnumber⟩
    case rcLimit =>
      rw [hlimit]
      refine getD_of_read (P := fun n : Int => 0 ≤ n) (by decide) fun n hn => ?_
      obtain ⟨v, -, hread⟩ := Option.bind_eq_some_iff.mp hn
      exact Reading.read_integer hread
    case historySize =>
      rw [hsize]
      refine getD_of_read (P := fun n : Int => 1 ≤ n) (by decide) fun n hn => ?_
      obtain ⟨v, -, hread⟩ := Option.bind_eq_some_iff.mp hn
      exact Reading.read_integer hread

/-! ## 3. Loading -/

/-- A section that is not a mapping is a fault of the settings. -/
theorem isExpected_of_sectionOf {file : Yaml.Document} {name : String} {p : Path} {f : Fault}
    (h : sectionOf file name p = .error f) : f.isExpected = true := by
  unfold sectionOf at h
  split at h
  · cases h
  · split at h
    · cases h
    · cases h
      rfl

/-- The sections come before all values. -/
theorem load_of_section_error {s : Sources} {d : Disk} {p : Path} {isRequired : Bool} {file : Yaml.Document} {f : Fault}
    (hp : s.path d = .ok (p, isRequired)) (hfile : loadFile d p isRequired = .ok file)
    (h : sectionOf file "rpc" p = .error f ∨
      (∃ rpc, sectionOf file "rpc" p = .ok rpc) ∧ sectionOf file "shell" p = .error f) : load s d = .error f := by
  unfold load
  rw [hp]
  change loadFile d p isRequired >>= _ = _
  rw [hfile]
  change sectionOf file "rpc" p >>= _ = _
  rcases h with hrpc | ⟨⟨rpc, hrpc⟩, hshell⟩
  · rw [hrpc]
    rfl
  · rw [hrpc]
    change sectionOf file "shell" p >>= _ = _
    rw [hshell]
    rfl

/-- When the file holds a mapping, loading ends well just when the first value that is refused, if there is one, does not
go astray, and the timeout is a number otherwise. If a section of the file is not a mapping it ends well at once. -/
theorem loadsUsably_iff {s : Sources} {d : Disk} {p : Path} {isRequired : Bool} {file : Yaml.Document}
    (hp : s.path d = .ok (p, isRequired)) (hfile : loadFile d p isRequired = .ok file) :
    LoadsUsably s d ↔ ∀ rpc shell, sectionOf file "rpc" p = .ok rpc → sectionOf file "shell" p = .ok shell →
      match (demands s rpc shell).find? fun q => !q.isMet d.homes with
      | some q => q.isAstray = false
      | none => Setting.timeout.settled d.homes (firstOf (Setting.timeout.candidates s rpc)) ≠ .nan := by
  cases hrpc : sectionOf file "rpc" p with
  | error f =>
    have hload := load_of_section_error hp hfile (.inl hrpc)
    exact iff_of_true ((loadsUsably_of_error hload).mpr (isExpected_of_sectionOf hrpc)) nofun
  | ok rpc =>
    cases hshell : sectionOf file "shell" p with
    | error f =>
      have hload := load_of_section_error hp hfile (.inr ⟨⟨rpc, hrpc⟩, hshell⟩)
      exact iff_of_true ((loadsUsably_of_error hload).mpr (isExpected_of_sectionOf hshell)) nofun
    | ok shell =>
      have hgoes := load_goes hp hfile hrpc hshell
      have hsame : ∀ {P : Yaml.Document → Yaml.Document → Prop},
          (∀ r t, (Except.ok rpc : Except Fault _) = .ok r → (Except.ok shell : Except Fault _) = .ok t → P r t) ↔
            P rpc shell := by
        intro P
        refine ⟨fun h => h rpc shell rfl rfl, ?_⟩
        rintro h r t ⟨⟩ ⟨⟩
        exact h
      rw [hsame]
      unfold Goes at hgoes
      cases hfind : (demands s rpc shell).find? fun q => !q.isMet d.homes with
      | some q =>
        rw [hfind] at hgoes
        obtain ⟨f, hf, hastray⟩ := hgoes
        rw [loadsUsably_of_error hf, hastray]
        simp
      | none =>
        rw [hfind] at hgoes
        obtain ⟨c, hc, hget⟩ := hgoes
        rw [loadsUsably_of_ok hc, usable_of_get hget]
        rfl

/-- A limit that is given for the start, and nothing else. -/
def limitGiven : Sources := ⟨[("rc_limit", .ofValue (.int 5))], [], none, none⟩

/-- A user without files. -/
def noFiles : Disk := ⟨[], [], [("", "/home")]⟩

/-- With a limit that is given loading ends well. -/
theorem loadsUsably_limitGiven : LoadsUsably limitGiven noFiles := by
  refine (loadsUsably_iff rfl rfl).mpr ?_
  intro rpc shell hrpc hshell
  cases hrpc
  cases hshell
  change defaultTimeout ≠ .nan
  decide

/-- A timeout that is not a number is taken. -/
theorem not_loadsUsably_nan : ¬ LoadsUsably ⟨[("rpc_timeout", .ofString "nan")], [], none, none⟩ noFiles := by
  intro h
  have hload : ∃ c, load ⟨[("rpc_timeout", .ofString "nan")], [], none, none⟩ noFiles = .ok c ∧ c.timeout = .nan :=
    ⟨_, rfl, rfl⟩
  obtain ⟨c, hc, hnan⟩ := hload
  have hpositive := (h.usable c hc).timeout
  rw [hnan] at hpositive
  cases hpositive

end Settings

end ContractShell
