import ContractShell.Proofs.Steps
import ContractShell.Settings.Basic

/-!
How settings are loaded, setting by setting.

There are six settings. Each has a name under which it is given for a start, possibly a variable of the environment, a
section and a key in the file, and one way to read a value for it. A value that is given is read or refused, and a refusal
is either reported as a fault of the settings or goes astray: it comes out as a fault of another kind. Loading asks for
values one after the other and ends at the first one that is refused; otherwise each setting is what the highest source
says that gives it, or the default.

## Main statements

* `meets_number`, `meets_integer`, `meets_endpoint`, `meets_path`, `meets_paths`: what a step of loading comes to.
* `Goes.bind`: a step before others.
* `load_goes`: what loading comes to.
-/

namespace ContractShell.Settings

/-! ## 1. Settings and their sources -/

/-- The settings of a shell, one by one. -/
inductive Setting where
  | endpoint
  | timeout
  | rcLimit
  | historyPath
  | historySize
  | rcFiles
  deriving DecidableEq, Repr

namespace Setting

/-- What a setting holds. -/
abbrev Content : Setting → Type
  | endpoint => Option String
  | timeout => Binary64
  | rcLimit => Int
  | historyPath => Path
  | historySize => Int
  | rcFiles => List Path

/-- The name under which a setting is given for a start. -/
def name : Setting → String
  | endpoint => "rpc_url"
  | timeout => "rpc_timeout"
  | rcLimit => "rc_limit"
  | historyPath => "history_path"
  | historySize => "history_size"
  | rcFiles => "rc_files"

/-- The variable of the environment that gives a setting. -/
def variableName? : Setting → Option String
  | endpoint => some urlVariable
  | historyPath => some historyVariable
  | historySize => some historySizeVariable
  | _ => none

/-- The section of the file that a setting stands in. -/
def sectionName : Setting → String
  | endpoint | timeout | rcLimit => "rpc"
  | historyPath | historySize | rcFiles => "shell"

/-- The key of a setting in its section. -/
def key : Setting → String
  | endpoint => "url"
  | timeout => "timeout"
  | rcLimit => "rc_limit"
  | historyPath => "history"
  | historySize => "history_size"
  | rcFiles => "rc_files"

/-- What the sources give for a setting, the highest one first. -/
def candidates (x : Setting) (s : Sources) (part : Yaml.Document) : List (Option Yaml.Document) :=
  [s.override? x.name, x.variableName?.bind s.environmentValue, given (part.member? x.key)]

end Setting

/-- The value of a setting. -/
def get (c : Settings) : (x : Setting) → x.Content
  | .endpoint => c.url
  | .timeout => c.timeout
  | .rcLimit => c.rcLimit
  | .historyPath => c.historyPath
  | .historySize => c.historySize
  | .rcFiles => c.rcFiles

/-! ## 2. Readings of values -/

/-- The floating-point number that a value stands for. -/
def number? : Yaml.Value → Option Binary64
  | .bool b => Binary64.ofInt? (if b then 1 else 0)
  | .int n => Binary64.ofInt? n
  | .float x _ => some x
  | .text s => Binary64.ofText? s
  | .bytes b => (asciiText? b).bind Binary64.ofText?
  | _ => none

/-- The integer that a value stands for. -/
def integer? : Yaml.Value → Option Int
  | .bool b => some (if b then 1 else 0)
  | .int n => some n
  | .float x _ => x.truncate?
  | .text s => (Integer.read 10 s).toOption
  | .bytes b => (asciiText? b).bind fun s => (Integer.read 10 s).toOption
  | _ => none

/-- An integer stands for no number when it is too large. -/
def isTooLarge : Yaml.Value → Bool
  | .int n => (Binary64.ofInt? n).isNone
  | _ => false

/-- An infinity stands for no integer. -/
def isInfinite : Yaml.Value → Bool
  | .float (.infinite _) _ => true
  | _ => false

/-- The ways to read the value of a setting. -/
inductive Reading where
  | endpoint
  | number
  | integer (minimum : Int)
  | path
  | paths
  deriving DecidableEq, Repr

namespace Reading

/-- What a value is read as. -/
abbrev Result : Reading → Type
  | endpoint => String
  | number => Binary64
  | integer _ => Int
  | path => Path
  | paths => List Path

/-- A path in a text, with the home directories that `~` stands for. -/
def pathOfText (homes : Path.Homes) (text : String) : Option Path := ((Path.ofText text).expandHome homes).toOption

/-- What a value is read as, unless it is refused. Where the value comes from does not matter. -/
def read (homes : Path.Homes) : (r : Reading) → Yaml.Document → Option r.Result
  | endpoint, v => v.shown?.bind fun text => (Url.endpoint text).toOption
  | number, v => (number? v.root).filter Binary64.notAtMostZero
  | integer minimum, v => (integer? v.root).filter fun n : Int => decide (minimum ≤ n)
  | path, v => v.shown?.bind (pathOfText homes)
  | paths, v => v.shownItems?.bind fun items => items.mapM fun text => text.bind (pathOfText homes)

/-- A value that is refused goes astray: not as a fault of the settings. Either the value is too long to be shown in a
message, or there is a case that the reading does not provide for: a URL that cannot be taken apart, an integer that is
too large for a number, an infinity for an integer, and a path that leads to no home directory. -/
def astray : Reading → Yaml.Document → Bool
  | endpoint, v =>
    match v.shown? with
    | none => true
    | some text =>
      match Url.endpoint text with
      | .error (.notEndpoint _) => false
      | _ => true
  | number, v => v.shown?.isNone || isTooLarge v.root
  | integer _, v => v.shown?.isNone || isInfinite v.root
  | path, _ => true
  | paths, v => v.shownItems?.isSome

end Reading

/-- The way to read the value of a setting. -/
def Setting.reading : Setting → Reading
  | .endpoint => .endpoint
  | .timeout => .number
  | .rcLimit => .integer 0
  | .historyPath => .path
  | .historySize => .integer 1
  | .rcFiles => .paths

/-- What a setting is, by the value that the highest source gives, or by default. -/
def Setting.settled (homes : Path.Homes) : (x : Setting) → Option Yaml.Document → x.Content
  | .endpoint, v => v.bind (Reading.endpoint.read homes)
  | .timeout, v => (v.bind (Reading.number.read homes)).getD defaultTimeout
  | .rcLimit, v => (v.bind ((Reading.integer 0).read homes)).getD defaultRcLimit
  | .historyPath, v => (v.bind (Reading.path.read homes)).getD (defaultHistory homes)
  | .historySize, v => (v.bind ((Reading.integer 1).read homes)).getD defaultHistorySize
  | .rcFiles, v => (v.bind (Reading.paths.read homes)).getD (defaultRcFiles homes)

/-! ## 3. What a step comes to -/

/-- A step that reads a value succeeds with what the value is read as, and otherwise fails as the value is refused. -/
def Meets {β : Type} (homes : Path.Homes) (r : Reading) (v : Option Yaml.Document) (x : Except Fault β)
    (g : Option r.Result → β) : Prop :=
  match v with
  | none => x = .ok (g none)
  | some v =>
    match r.read homes v with
    | some a => x = .ok (g (some a))
    | none => ∃ f, x = .error f ∧ f.isExpected = !r.astray v

theorem Meets.of_read {β : Type} {homes : Path.Homes} {r : Reading} {v : Yaml.Document} {x : Except Fault β}
    {g : Option r.Result → β} {a : r.Result} (h : r.read homes v = some a) (hx : x = .ok (g (some a))) :
    Meets homes r (some v) x g := by
  simp only [Meets, h]
  exact hx

theorem Meets.of_refused {β : Type} {homes : Path.Homes} {r : Reading} {v : Yaml.Document} {x : Except Fault β}
    {g : Option r.Result → β} {f : Fault} (h : r.read homes v = none) (hx : x = .error f)
    (hf : f.isExpected = !r.astray v) : Meets homes r (some v) x g := by
  simp only [Meets, h]
  exact ⟨f, hx, hf⟩

/-- What a source gives is not null. -/
theorem given_given (v : Option Yaml.Document) : given (given v) = given v := by
  unfold given
  rw [Option.filter_filter]
  simp only [Bool.and_self]

theorem given_override (s : Sources) (name : String) : given (s.override? name) = s.override? name := given_given _

theorem given_environmentValue (s : Sources) (name : String) :
    given (s.environmentValue name) = s.environmentValue name := by
  unfold Sources.environmentValue
  cases (s.environment.find? (·.1 == name)).map (·.2) with
  | none => rfl
  | some v =>
    rw [Option.bind_some]
    split <;> rfl

/-- A fault about a value is one of the settings if the value can be shown. -/
theorem about_isExpected (fault : String → Fault) (hfault : ∀ t, (fault t).isExpected = true) (v : Yaml.Document) :
    (about fault v).isExpected = !v.shown?.isNone := by
  unfold about
  cases v.shown? with
  | none => rfl
  | some t => exact hfault t

theorem numberOf_eq (source : String) (v : Yaml.Document) :
    numberOf source v = match number? v.root with
      | some x => .ok x
      | none => .error (if isTooLarge v.root then .tooLarge else about (.notNumber source) v) := by
  unfold numberOf
  cases v.root with
  | bool b => cases b <;> rfl
  | int n => cases hn : Binary64.ofInt? n <;> simp [number?, isTooLarge, hn]
  | text s => cases hs : Binary64.ofText? s <;> simp [number?, isTooLarge, hs]
  | bytes b => cases hb : (asciiText? b).bind Binary64.ofText? <;> simp [number?, isTooLarge, hb]
  | _ => rfl

theorem integerOf_eq (source : String) (v : Yaml.Document) :
    integerOf source v = match integer? v.root with
      | some n => .ok n
      | none => .error (if isInfinite v.root then .infinite else about (.notInteger source) v) := by
  have htext : ∀ (f : Fault) (t : String), integerOfText f (some t) =
      match (Integer.read 10 t).toOption with
      | some n => .ok n
      | none => .error f := by
    intro f t
    change (Integer.read 10 t).mapError (fun _ => f) = _
    cases Integer.read 10 t <;> rfl
  unfold integerOf
  cases v.root with
  | float x origin => cases x <;> rfl
  | text s => exact htext _ s
  | bytes b =>
    show integerOfText _ (asciiText? b) = _
    cases hb : asciiText? b with
    | none => simp only [integer?, hb, Option.bind_none]; rfl
    | some t =>
      simp only [integer?, hb, Option.bind_some]
      exact htext _ t
  | _ => rfl

/-- A number that a source gives is read as such. -/
theorem meets_number (homes : Path.Homes) (source : String) (v : Option Yaml.Document) (hgiven : given v = v) :
    Meets homes .number v (number source v) id := by
  unfold number
  rw [hgiven]
  cases v with
  | none => rfl
  | some v =>
    simp only [numberOf_eq]
    cases hx : number? v.root with
    | none =>
      have hread : Reading.number.read homes v = none := by rw [Reading.read, hx]; rfl
      refine .of_refused hread rfl ?_
      rw [Reading.astray]
      cases isTooLarge v.root with
      | true => simp [Fault.isExpected]
      | false => simp [about_isExpected (.notNumber source) (fun _ => rfl)]
    | some x =>
      -- An integer that stands for a number is not too large for one.
      have hlarge : isTooLarge v.root = false := by
        cases hroot : v.root with
        | int n =>
          rw [hroot] at hx
          rw [isTooLarge, show Binary64.ofInt? n = some x from hx]
          rfl
        | _ => rfl
      cases hpos : x.notAtMostZero with
      | true => exact .of_read (by rw [Reading.read, hx, Option.filter_some, if_pos hpos]) (if_pos hpos)
      | false =>
        have hread : Reading.number.read homes v = none := by
          rw [Reading.read, hx, Option.filter_some, if_neg (by rw [hpos]; decide)]
        refine .of_refused hread (if_neg (by rw [hpos]; decide)) ?_
        rw [Reading.astray, hlarge, Bool.or_false]
        exact about_isExpected _ (fun _ => rfl) v

/-- An integer that a source gives is read as such. -/
theorem meets_integer (homes : Path.Homes) (source : String) (minimum : Int) (v : Option Yaml.Document)
    (hgiven : given v = v) : Meets homes (.integer minimum) v (integer source minimum v) id := by
  unfold integer
  rw [hgiven]
  cases v with
  | none => rfl
  | some v =>
    simp only [integerOf_eq]
    cases hn : integer? v.root with
    | none =>
      have hread : (Reading.integer minimum).read homes v = none := by rw [Reading.read, hn]; rfl
      refine .of_refused hread rfl ?_
      rw [Reading.astray]
      cases isInfinite v.root with
      | true => simp [Fault.isExpected]
      | false => simp [about_isExpected (.notInteger source) (fun _ => rfl)]
    | some n =>
      -- A number that stands for an integer is not infinite.
      have hfinite : isInfinite v.root = false := by
        cases hroot : v.root with
        | float x origin =>
          rw [hroot] at hn
          cases x with
          | infinite => cases hn
          | _ => rfl
        | _ => rfl
      by_cases hmin : n < minimum
      · have hread : (Reading.integer minimum).read homes v = none := by
          rw [Reading.read, hn, Option.filter_some, if_neg (by simpa using hmin)]
        refine .of_refused hread (if_pos hmin) ?_
        rw [Reading.astray, hfinite, Bool.or_false]
        exact about_isExpected _ (fun _ => rfl) v
      · have hread : (Reading.integer minimum).read homes v = some n := by
          rw [Reading.read, hn, Option.filter_some, if_pos (by simpa using hmin)]
        exact .of_read hread (if_neg hmin)

/-- An endpoint that a source gives is read as such. -/
theorem meets_endpoint (homes : Path.Homes) (v : Option Yaml.Document) :
    Meets homes .endpoint v (endpointOf v) id := by
  cases v with
  | none => rfl
  | some v =>
    cases hshown : v.shown? with
    | none =>
      refine .of_refused (f := .tooLong) (by rw [Reading.read, hshown]; rfl) ?_ (by rw [Reading.astray, hshown]; rfl)
      rw [endpointOf, shownText, hshown]
      rfl
    | some text =>
      cases hurl : Url.endpoint text with
      | ok u =>
        refine .of_read (a := u) (by rw [Reading.read, hshown, Option.bind_some, hurl]; rfl) ?_
        rw [endpointOf, shownText, hshown]
        change (do pure (some (← (Url.endpoint text).mapError Fault.url))) = _
        rw [hurl]
        rfl
      | error f =>
        refine .of_refused (f := .url f) (by rw [Reading.read, hshown, Option.bind_some, hurl]; rfl) ?_ ?_
        · rw [endpointOf, shownText, hshown]
          change (do pure (some (← (Url.endpoint text).mapError Fault.url))) = _
          rw [hurl]
          rfl
        · rw [Reading.astray, hshown]
          simp only [hurl]
          cases f <;> rfl

/-- A text is read as a path unless its home directory is not known. -/
theorem expand_eq (d : Disk) (text : String) :
    match Reading.pathOfText d.homes text with
    | some p => expand d text = .ok p
    | none => ∃ f, expand d text = .error f ∧ f.isExpected = false := by
  unfold Reading.pathOfText expand
  cases (Path.ofText text).expandHome d.homes with
  | ok p => rfl
  | error f => exact ⟨_, rfl, rfl⟩

/-- A path that a source gives is read as such. -/
theorem meets_path (d : Disk) (default : Path) (v : Option Yaml.Document) :
    Meets d.homes .path v (pathOf d default v) (fun p => p.getD default) := by
  cases v with
  | none => rfl
  | some v =>
    cases hshown : v.shown? with
    | none =>
      refine .of_refused (f := .tooLong) (by rw [Reading.read, hshown]; rfl) ?_ rfl
      rw [pathOf, shownText, hshown]
      rfl
    | some text =>
      have hpath : pathOf d default (some v) = expand d text := by
        rw [pathOf, shownText, hshown]
        rfl
      have hexpand := expand_eq d text
      cases hread : Reading.pathOfText d.homes text with
      | some p =>
        rw [hread] at hexpand
        exact .of_read (by rw [Reading.read, hshown, Option.bind_some, hread]) (hpath.trans hexpand)
      | none =>
        rw [hread] at hexpand
        obtain ⟨f, hf, hastray⟩ := hexpand
        exact .of_refused (by rw [Reading.read, hshown, Option.bind_some, hread]) (hpath.trans hf) hastray

/-- A text that is shown is read as a path, one that is too long is not. -/
def itemPath (d : Disk) : Option String → Except Fault Path
  | some text => expand d text
  | none => .error .tooLong

theorem itemPaths_eq (d : Disk) (items : List (Option String)) :
    match items.mapM fun text => text.bind (Reading.pathOfText d.homes) with
    | some ps => items.mapM (itemPath d) = .ok ps
    | none => ∃ f, items.mapM (itemPath d) = .error f ∧ f.isExpected = false := by
  induction items with
  | nil => rfl
  | cons text items ih =>
    rw [List.mapM_cons, List.mapM_cons]
    have hitem : match text.bind (Reading.pathOfText d.homes) with
        | some p => itemPath d text = .ok p
        | none => ∃ f, itemPath d text = .error f ∧ f.isExpected = false := by
      cases text with
      | none => exact ⟨_, rfl, rfl⟩
      | some text => exact expand_eq d text
    cases hread : text.bind (Reading.pathOfText d.homes) with
    | none =>
      rw [hread] at hitem
      obtain ⟨f, hf, hastray⟩ := hitem
      exact ⟨f, by rw [hf]; rfl, hastray⟩
    | some p =>
      rw [hread] at hitem
      rw [hitem]
      cases hrest : items.mapM fun text => text.bind (Reading.pathOfText d.homes) with
      | none =>
        rw [hrest] at ih
        obtain ⟨f, hf, hastray⟩ := ih
        exact ⟨f, by rw [hf]; rfl, hastray⟩
      | some ps =>
        rw [hrest] at ih
        rw [ih]
        rfl

/-- The paths that a source gives are read as such. -/
theorem meets_paths (d : Disk) (p : Path) (v : Option Yaml.Document) :
    Meets d.homes .paths v (rcFilesOf d p v) (fun ps => ps.getD (defaultRcFiles d.homes)) := by
  cases v with
  | none => rfl
  | some v =>
    cases hitems : v.shownItems? with
    | none =>
      refine .of_refused (f := .rcFilesNotList p.toText) (by rw [Reading.read, hitems]; rfl) ?_ ?_
      · rw [rcFilesOf, hitems]
      · rw [Reading.astray, hitems]
        rfl
    | some items =>
      have hpaths : rcFilesOf d p (some v) = items.mapM (itemPath d) := by
        rw [rcFilesOf, hitems]
        rfl
      have hall := itemPaths_eq d items
      cases hread : items.mapM fun text => text.bind (Reading.pathOfText d.homes) with
      | some ps =>
        rw [hread] at hall
        exact .of_read (by rw [Reading.read, hitems, Option.bind_some, hread]) (hpaths.trans hall)
      | none =>
        rw [hread] at hall
        obtain ⟨f, hf, hastray⟩ := hall
        refine .of_refused (by rw [Reading.read, hitems, Option.bind_some, hread]) (hpaths.trans hf) ?_
        rw [Reading.astray, hitems]
        exact hastray

/-! ## 4. Loading -/

/-- What is asked of a value: to be read in some way, if it is there. -/
structure Demand where
  reading : Reading
  value : Option Yaml.Document

namespace Demand

/-- The value can be read, or there is none. -/
def isMet (homes : Path.Homes) (q : Demand) : Bool := q.value.all fun v => (q.reading.read homes v).isSome

/-- The refusal of the value goes astray. -/
def isAstray (q : Demand) : Bool := q.value.any q.reading.astray

end Demand

/-- Loading ends at the first value that is refused, or comes to settings with a property. -/
def Goes {β : Type} (homes : Path.Homes) (demands : List Demand) (x : Except Fault β) (P : β → Prop) : Prop :=
  match demands.find? fun q => !q.isMet homes with
  | some q => ∃ f, x = .error f ∧ f.isExpected = !q.isAstray
  | none => ∃ c, x = .ok c ∧ P c

/-- The first of some steps ends them, or its value is read and the others follow. -/
theorem Goes.bind {β γ : Type} {homes : Path.Homes} {r : Reading} {v : Option Yaml.Document} {x : Except Fault β}
    {g : Option r.Result → β} {k : β → Except Fault γ} {demands : List Demand} {P : γ → Prop} (hx : Meets homes r v x g)
    (hk : (v.isSome = true → (v.bind (r.read homes)).isSome = true) →
      Goes homes demands (k (g (v.bind (r.read homes)))) P) :
    Goes homes (⟨r, v⟩ :: demands) (x >>= k) P := by
  unfold Goes
  rw [List.find?_cons]
  cases v with
  | none =>
    have hok : x = .ok (g none) := hx
    rw [hok]
    exact hk nofun
  | some v =>
    simp only [Meets] at hx
    simp only [Demand.isMet, Option.all_some]
    cases ha : r.read homes v with
    | none =>
      rw [ha] at hx
      obtain ⟨f, rfl, hf⟩ := hx
      exact ⟨f, rfl, hf⟩
    | some a =>
      rw [ha] at hx
      obtain rfl : x = .ok (g (some a)) := hx
      rw [Option.bind_some, ha] at hk
      exact hk fun _ => rfl

/-- A value that is not there asks for nothing. -/
theorem Goes.of_none {γ : Type} {homes : Path.Homes} {r : Reading} {x : Except Fault γ} {demands : List Demand}
    {P : γ → Prop} (h : Goes homes demands x P) : Goes homes (⟨r, none⟩ :: demands) x P := h

/-- The section of a setting. -/
def Setting.part (x : Setting) (rpc shell : Yaml.Document) : Yaml.Document :=
  if x.sectionName = "rpc" then rpc else shell

/-- All sources of some settings are asked, also those that do not count. -/
def Setting.asksAll : Setting → Bool
  | timeout | rcLimit | historySize => true
  | endpoint | historyPath | rcFiles => false

/-- What is asked of the values that are given for a setting. -/
def Setting.demands (x : Setting) (s : Sources) (part : Yaml.Document) : List Demand :=
  (if x.asksAll then x.candidates s part else [firstOf (x.candidates s part)]).map (Demand.mk x.reading)

/-- The settings in the order in which they are loaded. -/
def order : List Setting := [.endpoint, .timeout, .rcLimit, .historySize, .rcFiles, .historyPath]

/-- What loading asks of the values that the sources give, in order. -/
def demands (s : Sources) (rpc shell : Yaml.Document) : List Demand :=
  order.flatMap fun x => x.demands s (x.part rpc shell)

/-- The first of the values that are read is the reading of the first value, if all can be read. -/
theorem firstOf_map_bind {α β : Type} (f : α → Option β) {values : List (Option α)}
    (h : ∀ v ∈ values, v.isSome = true → (v.bind f).isSome = true) :
    firstOf (values.map (·.bind f)) = (firstOf values).bind f := by
  induction values with
  | nil => rfl
  | cons v values ih =>
    cases v with
    | none => exact ih fun w hw => h w (List.mem_cons_of_mem _ hw)
    | some a =>
      obtain ⟨b, hb⟩ := Option.isSome_iff_exists.mp (h _ List.mem_cons_self rfl)
      rw [List.map_cons, hb, firstOf_cons_some, firstOf_cons_some, ← hb]

/-- What holds of the values of all three kinds of sources holds of all candidates. -/
theorem forall_candidates {P : Option Yaml.Document → Prop} (x : Setting) (s : Sources) (part : Yaml.Document)
    (hoverride : P (s.override? x.name)) (hvariable : P (x.variableName?.bind s.environmentValue))
    (hfile : P (given (part.member? x.key))) : ∀ v ∈ x.candidates s part, P v := by
  simp only [Setting.candidates, List.forall_mem_cons]
  exact ⟨hoverride, hvariable, hfile, nofun⟩

/-- What loading comes to when the file holds a mapping and so do its sections: it ends at the first value that is
refused, or each setting is what the highest source gives for it. -/
theorem load_goes {s : Sources} {d : Disk} {p : Path} {isRequired : Bool} {file rpc shell : Yaml.Document}
    (hp : s.path d = .ok (p, isRequired)) (hfile : loadFile d p isRequired = .ok file)
    (hrpc : sectionOf file "rpc" p = .ok rpc) (hshell : sectionOf file "shell" p = .ok shell) :
    Goes d.homes (demands s rpc shell) (load s d) fun c =>
      ∀ x : Setting, c.get x = x.settled d.homes (firstOf (x.candidates s (x.part rpc shell))) := by
  unfold load
  rw [hp]
  change Goes _ _ (loadFile d p isRequired >>= _) _
  rw [hfile]
  change Goes _ _ (sectionOf file "rpc" p >>= _) _
  rw [hrpc]
  change Goes _ _ (sectionOf file "shell" p >>= _) _
  rw [hshell]
  -- A setting without a variable has one source less to look at.
  have hskip : ∀ {α : Type} (v w : Option α), firstOf [v, w] = firstOf [v, none, w] := by
    intro α v w
    cases v <;> rfl
  -- the demands, one by one, beside the steps
  change Goes _ (⟨.endpoint, _⟩ :: _) (endpointOf _ >>= _) _
  refine Goes.bind (meets_endpoint d.homes _) fun _ => ?_
  refine Goes.bind (meets_number d.homes _ _ (given_override s _)) fun htimeout => .of_none ?_
  refine Goes.bind (meets_number d.homes _ _ (given_given _)) fun htimeoutInFile => ?_
  refine Goes.bind (meets_integer d.homes _ _ _ (given_override s _)) fun hlimit => .of_none ?_
  refine Goes.bind (meets_integer d.homes _ _ _ (given_given _)) fun hlimitInFile => ?_
  refine Goes.bind (meets_integer d.homes _ _ _ (given_override s _)) fun hsize => ?_
  refine Goes.bind (meets_integer d.homes _ _ _ (given_environmentValue s _)) fun hsizeInEnvironment => ?_
  refine Goes.bind (meets_integer d.homes _ _ _ (given_given _)) fun hsizeInFile => ?_
  rw [hskip (s.override? "rc_files")]
  refine Goes.bind (meets_paths d p _) fun _ => ?_
  refine Goes.bind (meets_path d _ _) fun _ => ?_
  refine ⟨_, rfl, fun x => ?_⟩
  -- All values that were asked for could be read, so reading them and choosing among them can change places.
  cases x with
  | endpoint => rfl
  | historyPath => rfl
  | rcFiles => rfl
  | timeout =>
    have hchosen := firstOf_map_bind (Reading.number.read d.homes)
      (forall_candidates Setting.timeout s (Setting.timeout.part rpc shell) htimeout nofun htimeoutInFile)
    exact congrArg (·.getD defaultTimeout) ((hskip _ _).trans hchosen)
  | rcLimit =>
    have hchosen := firstOf_map_bind ((Reading.integer 0).read d.homes)
      (forall_candidates Setting.rcLimit s (Setting.rcLimit.part rpc shell) hlimit nofun hlimitInFile)
    exact congrArg (·.getD defaultRcLimit) ((hskip _ _).trans hchosen)
  | historySize =>
    have hchosen := firstOf_map_bind ((Reading.integer 1).read d.homes)
      (forall_candidates Setting.historySize s (Setting.historySize.part rpc shell) hsize hsizeInEnvironment hsizeInFile)
    exact congrArg (·.getD defaultHistorySize) hchosen

end ContractShell.Settings
