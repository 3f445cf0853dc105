import ContractShell.Proofs.Library.Linking
import Mathlib.Logic.Relation

/-!
In which order the files of a library are linked.

A file comes after those that it depends on. A run that stops has found a file that is not there or one that depends on
itself; a run that does not has an order of all files, so nothing of the kind is there to find. Which of the two it is
depends on the files alone, and not on the order that they are given in.

All this presupposes that each file can be linked once those that it depends on are.

## Main statements

* `LinkedInOrder.acyclic`: no file that was linked depends on itself.
* `loadFile_goes`: what comes of loading one file, and what a fault means.
* `loadWithin_eq`: the plain recursion, cut off above the number of files, gives the same.
* `AreSeparate.allFit`: files that refer to messages of their dependencies alone can be linked in any order that has these
  before them.
* `Library.linked_in_order`: which sets of files are loaded, in which order, and why the others are not.
-/

namespace ContractShell

open Descriptor (File Pool Standard.fileName Standard.pool)
open Relation (ReflTransGen TransGen)

/-! ## 1. Dependencies -/

/-- A file depends on another. The standard definitions depend on nothing, whatever a file of their name says. -/
def Needs (files : List File) (a b : String) : Prop :=
  a ≠ Standard.fileName ∧ ∃ f, fileNamed? files a = some f ∧ b ∈ f.dependencies

/-- What linking files one by one leads to, each new one after those that it depends on: the files, and the state. -/
inductive LinkedInOrder (files : List File) : List File → Loaded → Prop where
  | start : LinkedInOrder files [] Loaded.start
  | link {order : List File} {f : File} {l l' : Loaded} (h : LinkedInOrder files order l)
      (hf : fileNamed? files f.name = some f) (hnew : f.name ∉ l.names) (hdeps : ∀ d ∈ f.dependencies, d ∈ l.names)
      (hlink : l.link f = .ok l') : LinkedInOrder files (order ++ [f]) l'

/-- Each file is linked when those that it depends on are. -/
def AllFit (files : List File) : Prop :=
  ∀ order l f, LinkedInOrder files order l → fileNamed? files f.name = some f → f.name ∉ l.names →
    (∀ d ∈ f.dependencies, d ∈ l.names) → ∃ l', l.link f = .ok l'

/-- Why a name is not loaded: one that it leads to is not there, or leads back to itself. -/
inductive FaultFrom (files : List File) (name : String) : LoadFault → Prop where
  | missing {other : String} (hlead : ReflTransGen (Needs files) name other) (hother : other ≠ Standard.fileName)
      (hnone : fileNamed? files other = none) : FaultFrom files name (.missing other)
  | circular {other : String} (hback : TransGen (Needs files) other other) : FaultFrom files name (.circular other)

theorem FaultFrom.of_needs {files : List File} {name next : String} {fault : LoadFault} (h : FaultFrom files next fault)
    (hneeds : Needs files name next) : FaultFrom files name fault := by
  cases h with
  | missing hlead hother hnone => exact .missing (hlead.head hneeds) hother hnone
  | circular hback => exact .circular hback

/-! ## 2. Orders -/

namespace LinkedInOrder

variable {files order : List File} {l : Loaded}

theorem names_eq (h : LinkedInOrder files order l) : l.names = (order.map (·.name)).reverse ++ [Standard.fileName] := by
  induction h with
  | start => rfl
  | link _ _ _ _ hlink ih =>
    rw [(mem_names_of_link hlink).1, ih, List.map_append, List.reverse_append]
    rfl

theorem mem_names_iff (h : LinkedInOrder files order l) {name : String} :
    name ∈ l.names ↔ name ∈ order.map (·.name) ∨ name = Standard.fileName := by
  rw [h.names_eq, List.mem_append, List.mem_reverse, List.mem_singleton]

theorem nodup_names (h : LinkedInOrder files order l) : l.names.Nodup := by
  induction h with
  | start => exact List.nodup_singleton _
  | link _ _ hnew _ hlink ih =>
    rw [(mem_names_of_link hlink).1, List.nodup_cons]
    exact ⟨hnew, ih⟩

theorem fileNamed?_eq (h : LinkedInOrder files order l) {f : File} (hf : f ∈ order) :
    fileNamed? files f.name = some f := by
  induction h with
  | start => cases hf
  | link _ hg _ _ _ ih =>
    rcases List.mem_append.mp hf with hf | hf
    · exact ih hf
    · rw [List.mem_singleton.mp hf]
      exact hg

/-- The pool holds the definitions of the files, added in this order. -/
theorem foldlM_link? (h : LinkedInOrder files order l) : order.foldlM Pool.link? Standard.pool = some l.pool := by
  induction h with
  | start => simp only [List.foldlM_nil, Loaded.start, Option.pure_def]
  | link _ _ _ _ hlink ih =>
    rw [List.foldlM_append, ih]
    simp only [Option.bind_eq_bind, Option.bind_some, List.foldlM_cons, List.foldlM_nil, (mem_names_of_link hlink).2,
      Option.pure_def]

/-- Each file comes after those that it depends on. -/
theorem before (h : LinkedInOrder files order l) {earlier : List File} {f : File} (hearlier : earlier ++ [f] <+: order) :
    ∀ d ∈ f.dependencies, d ∈ earlier.map (·.name) ∨ d = Standard.fileName := by
  induction h with
  | start =>
    have hnil := List.prefix_nil.mp hearlier
    exact absurd hnil (by simp)
  | link h _ _ hdeps _ ih =>
    rcases List.prefix_concat_iff.mp hearlier with heq | hearlier
    · obtain ⟨rfl, hlast⟩ := List.append_inj' heq rfl
      cases hlast
      intro d hd
      exact h.mem_names_iff.mp (hdeps d hd)
    · exact ih hearlier

/-- What a linked file depends on is linked. -/
theorem closed (h : LinkedInOrder files order l) {a b : String} (ha : a ∈ l.names) (hneeds : Needs files a b) :
    b ∈ l.names := by
  induction h with
  | start => exact absurd (List.mem_singleton.mp ha) hneeds.1
  | link _ hf _ hdeps hlink ih =>
    rw [(mem_names_of_link hlink).1] at ha ⊢
    apply List.mem_cons_of_mem
    rcases List.mem_cons.mp ha with rfl | ha
    · obtain ⟨-, g, hg, hb⟩ := hneeds
      rw [hf] at hg
      cases hg
      exact hdeps b hb
    · exact ih ha

theorem closed_of_reflTransGen (h : LinkedInOrder files order l) {a b : String} (ha : a ∈ l.names)
    (hlead : ReflTransGen (Needs files) a b) : b ∈ l.names := by
  induction hlead with
  | refl => exact ha
  | tail _ hneeds ih => exact h.closed ih hneeds

/-- No linked file depends on itself. -/
theorem acyclic (h : LinkedInOrder files order l) {a : String} (ha : a ∈ l.names) : ¬ TransGen (Needs files) a a := by
  induction h with
  | start =>
    intro hback
    obtain ⟨b, hneeds, -⟩ := TransGen.head'_iff.mp hback
    exact hneeds.1 (List.mem_singleton.mp ha)
  | link h hf hnew hdeps hlink ih =>
    rw [(mem_names_of_link hlink).1] at ha
    rcases List.mem_cons.mp ha with rfl | ha
    · -- What a new file depends on was linked before it, with all that this leads to.
      intro hback
      obtain ⟨b, ⟨-, g, hg, hb⟩, hlead⟩ := TransGen.head'_iff.mp hback
      rw [hf] at hg
      cases hg
      exact hnew (h.closed_of_reflTransGen (hdeps b hb) hlead)
    · exact ih ha

theorem mem_of_mem_names (h : LinkedInOrder files order l) {f : File} (hf : fileNamed? files f.name = some f)
    (hname : f.name ≠ Standard.fileName) (hmem : f.name ∈ l.names) : f ∈ order := by
  obtain ⟨g, hg, hsame⟩ := List.mem_map.mp ((h.mem_names_iff.mp hmem).resolve_right hname)
  have hfound := h.fileNamed?_eq hg
  rw [hsame, hf] at hfound
  cases hfound
  exact hg

end LinkedInOrder

/-! ## 3. One run -/

section

variable {files : List File} {trail : List String} {l : Loaded} {name : String}

/-- How loading some names from a state can go: they are linked besides what was, and nothing on the trail is; or one of
them is at fault. -/
inductive Goes (files : List File) (trail : List String) (l : Loaded) (names : List String) :
    Except LoadFault Loaded → Prop where
  | ok {order : List File} {l' : Loaded} (h : LinkedInOrder files order l') (hkeeps : l.names ⊆ l'.names)
      (hnames : names ⊆ l'.names) (htrail : ∀ t ∈ trail, t ∈ l'.names → t ∈ l.names) : Goes files trail l names (.ok l')
  | error {name : String} {fault : LoadFault} (hname : name ∈ names) (h : FaultFrom files name fault) :
      Goes files trail l names (.error fault)

theorem loadFiles_goes {order : List File} {names : List String} (hl : LinkedInOrder files order l)
    (hask : ∀ name ∈ names, ∀ order l, LinkedInOrder files order l →
      Goes files trail l [name] (loadFile files trail l name)) :
    Goes files trail l names (loadFiles files trail l names) := by
  induction names generalizing order l with
  | nil =>
    rw [loadFiles]
    exact .ok hl (List.Subset.refl _) (List.nil_subset _) fun _ _ h => h
  | cons name names ih =>
    rw [loadFiles]
    have hfirst := hask name List.mem_cons_self order l hl
    cases hfile : loadFile files trail l name with
    | error fault =>
      rw [hfile] at hfirst
      cases hfirst with
      | error hname h => exact .error (List.mem_cons.mpr (.inl (List.mem_singleton.mp hname))) h
    | ok between =>
      rw [hfile] at hfirst
      cases hfirst with
      | ok hbetween hkeeps hname htrail =>
        have hrest := ih hbetween fun next hnext => hask next (List.mem_cons_of_mem _ hnext)
        simp only
        generalize loadFiles files trail between names = result at hrest ⊢
        cases hrest with
        | error hname h => exact .error (List.mem_cons_of_mem _ hname) h
        | ok hl' hkeeps' hnames htrail' =>
          refine .ok hl' (List.Subset.trans hkeeps hkeeps') (List.cons_subset.mpr ⟨hkeeps' (hname List.mem_cons_self), hnames⟩) ?_
          intro t ht hmem
          exact htrail t ht (htrail' t ht hmem)

/-- What comes of loading a name, where all files on the trail lead to it. -/
theorem loadFile_goes (hfit : AllFit files) {order : List File} (hl : LinkedInOrder files order l)
    (htrail : ∀ t ∈ trail, TransGen (Needs files) t name) :
    Goes files trail l [name] (loadFile files trail l name) := by
  -- The induction is on the files that are not on the trail, as the recursion's own.
  induction hn : unvisited files trail using Nat.strongRecOn generalizing trail name order l with
  | ind n ih =>
    by_cases hdone : name ∈ l.names
    · rw [loadFile_of_mem hdone]
      exact .ok hl (List.Subset.refl _) (List.cons_subset.mpr ⟨hdone, List.nil_subset _⟩) fun _ _ h => h
    by_cases hwaiting : name ∈ trail
    · rw [loadFile_of_waiting hdone hwaiting]
      exact .error List.mem_cons_self (.circular (htrail name hwaiting))
    have hname : name ≠ Standard.fileName := by
      intro heq
      exact hdone (hl.mem_names_iff.mpr (.inr heq))
    cases hf : fileNamed? files name with
    | none =>
      rw [loadFile_of_none hdone hwaiting hf]
      exact .error List.mem_cons_self (.missing .refl hname hf)
    | some f =>
      have hless : unvisited files (name :: trail) < n := by
        rw [← hn]
        exact unvisited_lt hf (mt List.contains_iff_mem.mp hwaiting)
      have hneeds : ∀ d ∈ f.dependencies, Needs files name d := fun d hd => ⟨hname, f, hf, hd⟩
      have hlead : ∀ d ∈ f.dependencies, ∀ t ∈ name :: trail, TransGen (Needs files) t d := by
        intro d hd t ht
        rcases List.mem_cons.mp ht with rfl | ht
        · exact .single (hneeds d hd)
        · exact (htrail t ht).tail (hneeds d hd)
      have hdeps := loadFiles_goes hl fun d hd order l hl => ih _ hless hl (hlead d hd) rfl
      rw [loadFile_of_some hdone hwaiting hf]
      generalize loadFiles files (name :: trail) l f.dependencies = result at hdeps ⊢
      cases hdeps with
      | error hd h => exact .error List.mem_cons_self (h.of_needs (hneeds _ hd))
      | ok hbetween hkeeps hdeps hwaits =>
        obtain rfl : f.name = name := by simpa using List.find?_some hf
        -- The file was on the trail, so it has not been linked for another one.
        have hnew := mt (hwaits f.name List.mem_cons_self) hdone
        obtain ⟨l', hlink⟩ := hfit _ _ f hbetween hf hnew hdeps
        have hnames := (mem_names_of_link hlink).1
        change Goes files trail l [f.name] (Loaded.link _ f)
        rw [hlink]
        refine .ok (hbetween.link hf hnew hdeps hlink) ?_ ?_ ?_
        · rw [hnames]
          exact List.Subset.trans hkeeps (List.subset_cons_self _ _)
        · rw [hnames]
          exact List.cons_subset.mpr ⟨List.mem_cons_self, List.nil_subset _⟩
        · intro t ht hmem
          rw [hnames] at hmem
          rcases List.mem_cons.mp hmem with rfl | hmem
          · exact absurd ht hwaiting
          · exact hwaits t (List.mem_cons_of_mem _ ht) hmem

end

/-! ## 4. The recursion ends -/

/-- Loads some names one after the other, where each is asked of another function. -/
def loadVia (ask : Loaded → String → Option (Except LoadFault Loaded)) :
    Loaded → List String → Option (Except LoadFault Loaded)
  | l, [] => some (.ok l)
  | l, name :: r =>
    match ask l name with
    | none => none
    | some (.error fault) => some (.error fault)
    | some (.ok l) => loadVia ask l r

/-- Loads a name by plain recursion. There is no answer when calls nest deeper than `depth`. -/
def loadWithin (files : List File) : Nat → List String → Loaded → String → Option (Except LoadFault Loaded)
  | 0, _, _, _ => none
  | depth + 1, trail, l, name =>
    if l.names.contains name then some (.ok l)
    else if trail.contains name then some (.error (.circular name))
    else
      match fileNamed? files name with
      | none => some (.error (.missing name))
      | some f =>
        match loadVia (loadWithin files depth (name :: trail)) l f.dependencies with
        | none => none
        | some (.error fault) => some (.error fault)
        | some (.ok l) => some (l.link f)

section

variable {files : List File} {trail : List String}

theorem loadVia_eq {ask : Loaded → String → Option (Except LoadFault Loaded)}
    (hask : ∀ l name, ask l name = some (loadFile files trail l name)) (l : Loaded) (names : List String) :
    loadVia ask l names = some (loadFiles files trail l names) := by
  induction names generalizing l with
  | nil => rw [loadVia, loadFiles]
  | cons name r ih =>
    rw [loadVia, loadFiles, hask]
    cases loadFile files trail l name with
    | error fault => rfl
    | ok l => exact ih l

/-- The plain recursion answers within a depth that is greater than the number of files that are not on the trail. -/
theorem loadWithin_eq {depth : Nat} (h : unvisited files trail < depth) (l : Loaded) (name : String) :
    loadWithin files depth trail l name = some (loadFile files trail l name) := by
  induction depth generalizing trail l name with
  | zero => exact absurd h (Nat.not_lt_zero _)
  | succ depth ih =>
    rw [loadWithin]
    simp only [List.contains_iff_mem]
    by_cases hdone : name ∈ l.names
    · rw [if_pos hdone, loadFile_of_mem hdone]
    by_cases hwaiting : name ∈ trail
    · rw [if_neg hdone, if_pos hwaiting, loadFile_of_waiting hdone hwaiting]
    rw [if_neg hdone, if_neg hwaiting]
    cases hf : fileNamed? files name with
    | none => rw [loadFile_of_none hdone hwaiting hf]
    | some f =>
      have hless : unvisited files (name :: trail) < depth := by
        have := unvisited_lt hf (mt List.contains_iff_mem.mp hwaiting)
        omega
      simp only
      rw [loadFile_of_some hdone hwaiting hf, loadVia_eq fun l name => ih hless l name]
      cases loadFiles files (name :: trail) l f.dependencies with
      | error fault => rfl
      | ok l => rfl

end

/-! ## 5. Sets of files -/

section

variable {files files' : List File} {f : File} {name : String}

theorem setFile_of_not_mem (h : f.name ∉ files.map (·.name)) : setFile f files = files ++ [f] := by
  induction files with
  | nil => rfl
  | cons g r ih =>
    rw [List.map_cons, List.mem_cons, not_or] at h
    rw [setFile, if_neg (Ne.symm h.1), ih h.2, List.cons_append]

/-- Files with different names are a set as they are. -/
theorem fileSet_of_nodup (hnames : (files.map (·.name)).Nodup) : fileSet files = files := by
  have hfrom : ∀ set : List File, ((set ++ files).map (·.name)).Nodup →
      files.foldl (fun set f => setFile f set) set = set ++ files := by
    clear hnames
    induction files with
    | nil => exact fun set _ => (List.append_nil set).symm
    | cons f r ih =>
      intro set hset
      have hnew : f.name ∉ set.map (·.name) := by
        rw [List.map_append, List.nodup_append] at hset
        exact fun hmem => hset.2.2 f.name hmem f.name List.mem_cons_self rfl
      rw [List.foldl_cons, setFile_of_not_mem hnew, ih _ (by rwa [List.append_assoc]), List.append_assoc]
      rfl
  exact hfrom [] hnames

theorem fileNamed?_eq_some_iff (hnames : (files.map (·.name)).Nodup) :
    fileNamed? files name = some f ↔ f ∈ files ∧ f.name = name := by
  constructor
  · intro h
    exact ⟨List.mem_of_find?_eq_some h, by simpa using List.find?_some h⟩
  · rintro ⟨hf, rfl⟩
    exact find?_eq_some_of_nodup hnames hf

theorem fileNamed?_eq_none_iff : fileNamed? files name = none ↔ name ∉ files.map (·.name) := by
  simp [fileNamed?]

/-- Which file has a name does not depend on the order of the files. -/
theorem fileNamed?_of_perm (hnames : (files.map (·.name)).Nodup) (h : files.Perm files') (name : String) :
    fileNamed? files name = fileNamed? files' name := by
  apply Option.ext
  intro f
  rw [fileNamed?_eq_some_iff hnames, fileNamed?_eq_some_iff ((h.map (·.name)).nodup_iff.mp hnames), h.mem_iff]

theorem mem_availableFiles (hf : f ∈ availableFiles files) : f ∈ files ∨ f = BytesHint.file := by
  unfold availableFiles at hf
  split at hf
  · exact .inl hf
  · exact (List.mem_append.mp hf).imp_right List.mem_singleton.mp

theorem mem_names_available : name ∈ (availableFiles files).map (·.name) ↔
    name ∈ files.map (·.name) ∨ name = BytesHint.fileName := by
  unfold availableFiles
  by_cases hown : files.any (·.name == BytesHint.fileName) = true
  · obtain ⟨f, hf, hname⟩ := List.any_eq_true.mp hown
    rw [if_pos hown]
    refine ⟨.inl, fun h => h.elim id ?_⟩
    rintro rfl
    exact beq_iff_eq.mp hname ▸ List.mem_map_of_mem hf
  · rw [if_neg hown, List.map_append, List.mem_append]
    exact or_congr_right List.mem_singleton

theorem nodup_names_available (hnames : (files.map (·.name)).Nodup) : ((availableFiles files).map (·.name)).Nodup := by
  unfold availableFiles
  by_cases hown : files.any (·.name == BytesHint.fileName) = true
  · rw [if_pos hown]
    exact hnames
  · rw [if_neg hown, List.map_append, List.nodup_append]
    refine ⟨hnames, List.nodup_singleton _, ?_⟩
    rintro a ha b hb rfl
    obtain ⟨f, hf, rfl⟩ := List.mem_map.mp ha
    exact hown (List.any_eq_true.mpr ⟨f, hf, beq_iff_eq.mpr (List.mem_singleton.mp hb)⟩)

theorem availableFiles_perm (h : files.Perm files') : (availableFiles files).Perm (availableFiles files') := by
  unfold availableFiles
  rw [h.any_eq]
  split
  · exact h
  · exact h.append_right _

theorem LinkedInOrder.congr (hfind : ∀ name, fileNamed? files name = fileNamed? files' name) {order : List File}
    {l : Loaded} (h : LinkedInOrder files order l) : LinkedInOrder files' order l := by
  induction h with
  | start => exact .start
  | link _ hf hnew hdeps hlink ih =>
    rw [hfind] at hf
    exact ih.link hf hnew hdeps hlink

end

/-! ## 6. Files that fit -/

/-- A field holds a message that is declared by a file on which the field's own file depends. -/
def holdsDependency (files : List File) (f : File) (x : Descriptor.Field) : Bool :=
  x.type == some .message && x.default.isNone && files.any fun g =>
    f.dependencies.contains g.name && g.symbols.any fun d => d.2.isMessage && x.typeName == some ("." ++ d.1)

/-- Files that keep the rules, declare no name twice, and refer to nothing but messages of the files that they depend on. -/
structure AreSeparate (files : List File) : Prop where
  names : (files.map (·.name)).Nodup
  others : ∀ f ∈ files, f.name ≠ Standard.fileName
  lacking : ∀ f ∈ files, f.lacking.isEmpty = true
  sound : ∀ f ∈ files, f.isSound = true
  extensions : ∀ f ∈ files, f.allExtensions.isEmpty = true
  services : ∀ f ∈ files, f.services.isEmpty = true
  fields : ∀ f ∈ files, ∀ m ∈ f.featuredMessages, ∀ x ∈ m.2.2.fields,
    (x.isPlain || holdsDependency files f x) = true
  distinct : ∀ f ∈ files, Descriptor.areDistinct (f.symbols.map (·.1)) = true
  apart : ∀ f ∈ files, ∀ g ∈ files, f.name ≠ g.name → ∀ d ∈ f.symbols, ∀ e ∈ g.symbols, e.1 ≠ d.1
  new : ∀ f ∈ files, f.symbols.all (fun d => (Descriptor.Standard.file.symbols.find? d.1).isNone) = true

section

variable {files order : List File} {l : Loaded}

theorem LinkedInOrder.symbols_eq (h : LinkedInOrder files order l) :
    l.pool.symbols = Standard.pool.symbols ++ order.flatMap (·.symbols) := by
  induction h with
  | start => simp only [Loaded.start, List.flatMap_nil, List.append_nil]
  | link _ _ _ _ hlink ih =>
    obtain ⟨-, -, added, extensions, -, -, -, -, hpool⟩ := Pool.link?_eq_some_iff.mp (mem_names_of_link hlink).2
    rw [hpool, List.flatMap_append, List.flatMap_singleton, ih, List.append_assoc]

/-- What a linked file declares is found under its name, whatever is linked later. -/
theorem LinkedInOrder.find?_symbols (h : LinkedInOrder files order l) {f : File} (hf : f ∈ order)
    {d : String × Descriptor.Symbol} (hd : d ∈ f.symbols) : l.pool.symbols.find? d.1 = some d.2 := by
  induction h with
  | start => cases hf
  | @link order g l l' _ _ _ _ hlink ih =>
    obtain ⟨-, hnew, added, extensions, -, -, -, -, hpool⟩ := Pool.link?_eq_some_iff.mp (mem_names_of_link hlink).2
    rw [hpool]
    rcases List.mem_append.mp hf with hf | hf
    · rw [Descriptor.Symbols.find?_append, ih hf, Option.some_or]
    · rw [List.mem_singleton.mp hf] at hd
      unfold Pool.areNew at hnew
      rw [Bool.and_eq_true, List.all_eq_true] at hnew
      rw [Descriptor.Symbols.find?_append, Option.isNone_iff_eq_none.mp (hnew.2 d hd), Option.none_or,
        Descriptor.Symbols.find?, find?_eq_some_of_nodup (Library.nodup_of_areDistinct hnew.1) hd]
      rfl

theorem LinkedInOrder.extensions_eq (hfiles : AreSeparate files) (h : LinkedInOrder files order l) :
    l.pool.extensions = [] := by
  induction h with
  | start => rw [Loaded.start, Descriptor.Standard.extensions_pool]
  | link _ hf _ _ hlink ih =>
    obtain ⟨-, -, added, extensions, -, hextensions, -, -, hpool⟩ :=
      Pool.link?_eq_some_iff.mp (mem_names_of_link hlink).2
    rw [List.isEmpty_iff.mp (hfiles.extensions _ (List.mem_of_find?_eq_some hf))] at hextensions
    cases hextensions
    rw [hpool]
    exact List.append_eq_nil_iff.mpr ⟨ih, rfl⟩

/-- The names of a file that is not linked are free. -/
theorem AreSeparate.areNew (hfiles : AreSeparate files) (h : LinkedInOrder files order l) {f : File} (hf : f ∈ files)
    (hname : f.name ∉ l.names) : l.pool.areNew f.symbols = true := by
  have hstandard := Descriptor.Standard.areNew_pool (hfiles.distinct f hf) (hfiles.new f hf)
  unfold Pool.areNew at hstandard ⊢
  rw [Bool.and_eq_true, List.all_eq_true] at hstandard ⊢
  refine ⟨hstandard.1, fun d hd => ?_⟩
  rw [h.symbols_eq, Descriptor.Symbols.find?_append, Option.isNone_iff_eq_none.mp (hstandard.2 d hd), Option.none_or,
    Option.isNone_iff_eq_none, Descriptor.Symbols.find?, Option.map_eq_none_iff, List.find?_eq_none]
  intro e he hsame
  obtain ⟨g, hg, heg⟩ := List.mem_flatMap.mp he
  have hother : f.name ≠ g.name := by
    intro heq
    apply hname
    rw [heq]
    exact h.mem_names_iff.mpr (.inl (List.mem_map_of_mem hg))
  exact hfiles.apart f hf g (List.mem_of_find?_eq_some (h.fileNamed?_eq hg)) hother d hd e heg (beq_iff_eq.mp hsame)

/-- A field that holds a message of a linked file becomes a slot, whatever else is declared. -/
theorem AreSeparate.exists_slot (hfiles : AreSeparate files) (h : LinkedInOrder files order l) {f : File}
    (hdeps : ∀ d ∈ f.dependencies, d ∈ l.names) {x : Descriptor.Field} (hx : holdsDependency files f x = true)
    (declared : Descriptor.Symbols) (third inEntry : Bool) (features : Descriptor.Features) (place : String) :
    ∃ slot, Pool.slot? (l.pool.symbols ++ declared) third features inEntry place x = some slot := by
  unfold holdsDependency at hx
  simp only [Bool.and_eq_true, beq_iff_eq, Option.isNone_iff_eq_none, List.any_eq_true, List.contains_iff_mem] at hx
  obtain ⟨⟨htype, hdefault⟩, g, hg, hdep, d, hd, hmessage, hname⟩ := hx
  have hnamed : fileNamed? files g.name = some g := (fileNamed?_eq_some_iff hfiles.names).mpr ⟨hg, rfl⟩
  have hlinked : g ∈ order := h.mem_of_mem_names hnamed (hfiles.others g hg) (hdeps _ hdep)
  -- The full name is found, and stands for a message.
  have hfind : Descriptor.Symbols.find? (l.pool.symbols ++ declared) d.1 = some d.2 := by
    rw [Descriptor.Symbols.find?_append, h.find?_symbols hlinked hd, Option.some_or]
  have htarget : Pool.target? (l.pool.symbols ++ declared) place x = some (.message, d.1, d.2) := by
    have hlist : ("." ++ d.1).toList = '.' :: d.1.toList := String.toList_append
    unfold Pool.target? Descriptor.Symbols.resolve?
    simp only [htype, hname, hlist, String.ofList_toList]
    have hnamed : Descriptor.FieldType.message.isNamed = true := rfl
    have hsort : ¬ Descriptor.FieldType.message = .enum := by decide
    rw [if_pos hnamed, if_neg hsort, hfind, Option.filter_some, if_pos hmessage]
    rfl
  unfold Pool.slot?
  rw [htarget]
  have hvalue : Pool.defaultOf? third .message d.2 x = some .zero := by
    unfold Pool.defaultOf?
    rw [hdefault]
    obtain ⟨full, symbol⟩ := d
    cases symbol with
    | message isEntry => rfl
    | enum values | other => cases hmessage
  simp only [Option.bind_eq_bind, Option.bind_some, hvalue]
  exact ⟨_, rfl⟩

/-- Such files fit, in whatever order they are linked. -/
theorem AreSeparate.allFit (hfiles : AreSeparate files) : AllFit files := by
  intro order l f h hf hnew hdeps
  have hmem := List.mem_of_find?_eq_some hf
  have hlinked : ∀ m ∈ f.featuredMessages, ∃ linked,
      Pool.linked? (l.pool.symbols ++ f.symbols) f.isThird f.hasEdition m = some linked := by
    rintro ⟨name, features, m⟩ hm
    obtain ⟨slots, hslots⟩ : ∃ slots, m.fields.mapM (fun x => Pool.slot? (l.pool.symbols ++ f.symbols) f.isThird
        (m.featuresOf f.hasEdition features x) m.isMapEntry name x) = some slots := by
      apply exists_mapM
      intro x hx
      rcases Bool.or_eq_true_iff.mp (hfiles.fields f hmem _ hm x hx) with hplain | hholds
      · exact ⟨_, Pool.slot?_of_isPlain hplain _ _ _ _ _⟩
      · exact hfiles.exists_slot h hdeps hholds _ _ _ _ _
    unfold Pool.linked?
    simp only [Option.bind_eq_bind, hslots, Option.bind_some]
    exact ⟨_, rfl⟩
  obtain ⟨added, hadded⟩ := exists_mapM hlinked
  -- Without extensions and services there is nothing else that could be refused.
  have hpool : l.pool.link? f = some ⟨l.pool.symbols ++ f.symbols, l.pool.messages ++ added, l.pool.extensions ++ []⟩ := by
    rw [Pool.link?_eq_some_iff]
    refine ⟨hfiles.sound f hmem, hfiles.areNew h hmem hnew, added, [], hadded, ?_, ?_, ?_, rfl⟩
    · rw [List.isEmpty_iff.mp (hfiles.extensions f hmem)]
      rfl
    · rw [h.extensions_eq hfiles]
      rfl
    · rw [List.isEmpty_iff.mp (hfiles.services f hmem)]
      rfl
  unfold Loaded.link
  rw [hfiles.lacking f hmem, hpool]
  exact ⟨_, rfl⟩

end

/-! ## 7. Libraries -/

namespace Library

/-- All that the files of a set lead to is there, and no file depends on itself. -/
structure HasOrder (files : List File) : Prop where
  known : ∀ f ∈ files, ∀ name, TransGen (Needs (availableFiles files)) f.name name →
    name ∈ files.map (·.name) ∨ name = BytesHint.fileName ∨ name = Standard.fileName
  acyclic : ∀ name, ¬ TransGen (Needs (availableFiles files)) name name

section

variable {files : List File} {order : List File} {l : Loaded}

/-- The file for display hints depends on the standard definitions alone, so nothing leads back to it. -/
theorem not_back_to_hints (hfind : fileNamed? (availableFiles files) BytesHint.fileName = some BytesHint.file) :
    ¬ TransGen (Needs (availableFiles files)) BytesHint.fileName BytesHint.fileName := by
  intro hback
  obtain ⟨b, ⟨-, f, hf, hb⟩, hlead⟩ := TransGen.head'_iff.mp hback
  rw [hfind] at hf
  cases hf
  have hb : b = Standard.fileName := List.mem_singleton.mp hb
  rw [hb] at hlead
  rcases ReflTransGen.cases_head hlead with heq | ⟨c, hneeds, -⟩
  · exact absurd heq (by decide)
  · exact hneeds.1 rfl

/-- Files that are linked in an order have one. -/
theorem hasOrder_of_linked (h : LinkedInOrder (availableFiles files) order l) (hall : ∀ f ∈ files, f.name ∈ l.names) :
    HasOrder files := by
  constructor
  · intro f hf name hlead
    rcases h.mem_names_iff.mp (h.closed_of_reflTransGen (hall f hf) hlead.to_reflTransGen) with hname | hname
    · obtain ⟨g, hg, rfl⟩ := List.mem_map.mp hname
      have hmem := List.mem_map_of_mem (f := (·.name)) (List.mem_of_find?_eq_some (h.fileNamed?_eq hg))
      exact (mem_names_available.mp hmem).imp_right .inl
    · exact .inr (.inr hname)
  · intro name hback
    obtain ⟨b, ⟨-, f, hf, -⟩, -⟩ := TransGen.head'_iff.mp hback
    have hname : f.name = name := by simpa using List.find?_some hf
    rcases mem_availableFiles (List.mem_of_find?_eq_some hf) with hmem | rfl
    · exact h.acyclic (hname ▸ hall f hmem) hback
    · rw [← hname] at hf hback
      exact not_back_to_hints hf hback

/-- Where a file is at fault, the files have no order. -/
theorem not_hasOrder_of_fault {f : File} {fault : LoadFault} (hf : f ∈ files)
    (h : FaultFrom (availableFiles files) f.name fault) : ¬ HasOrder files := by
  intro horder
  cases h with
  | @missing other hlead hother hnone =>
    rw [fileNamed?_eq_none_iff, mem_names_available, not_or] at hnone
    rcases Relation.reflTransGen_iff_eq_or_transGen.mp hlead with rfl | hlead
    · exact hnone.1 (List.mem_map_of_mem hf)
    · rcases horder.known f hf other hlead with hname | hname | hname
      · exact hnone.1 hname
      · exact hnone.2 hname
      · exact hother hname
  | circular hback => exact horder.acyclic _ hback

/-- A set of files is loaded, and then all its files were linked in an order, or one of them is at fault. -/
theorem linked_or_fault (hnames : (files.map (·.name)).Nodup) (hfit : AllFit (availableFiles files)) :
    (∃ order l, LinkedInOrder (availableFiles files) order l ∧ (∀ f ∈ files, f.name ∈ l.names) ∧
        ofFiles files = .ok ⟨files, (files.flatMap (·.allMessages)).reverse, l.pool⟩) ∨
      ∃ f ∈ files, ∃ fault, FaultFrom (availableFiles files) f.name fault ∧ ofFiles files = .error fault := by
  have hrun := @loadFiles_goes (availableFiles files) [] _ _ (files.map (·.name)) .start fun name _ order l hl =>
    loadFile_goes hfit hl (by simp)
  unfold ofFiles
  rw [fileSet_of_nodup hnames]
  simp only
  generalize loadFiles (availableFiles files) [] Loaded.start (files.map (·.name)) = result at hrun ⊢
  cases hrun with
  | ok h _ hall _ => exact .inl ⟨_, _, h, fun f hf => hall (List.mem_map_of_mem hf), rfl⟩
  | error hname h =>
    obtain ⟨f, hf, rfl⟩ := List.mem_map.mp hname
    exact .inr ⟨f, hf, _, h, rfl⟩

/-- A set of files is loaded just when it has an order. -/
theorem exists_ofFiles_iff (hnames : (files.map (·.name)).Nodup) (hfit : AllFit (availableFiles files)) :
    (∃ lib, ofFiles files = .ok lib) ↔ HasOrder files := by
  rcases linked_or_fault hnames hfit with ⟨order, l, h, hall, hlib⟩ | ⟨f, hf, fault, h, hfault⟩
  · exact ⟨fun _ => hasOrder_of_linked h hall, fun _ => ⟨_, hlib⟩⟩
  · rw [hfault]
    exact ⟨nofun, fun horder => absurd horder (not_hasOrder_of_fault hf h)⟩

theorem HasOrder.of_perm {files' : List File} (horder : HasOrder files) (h : files.Perm files')
    (hneeds : Needs (availableFiles files) = Needs (availableFiles files')) : HasOrder files' := by
  constructor
  · intro f hf name hlead
    rw [← hneeds] at hlead
    exact (horder.known f (h.mem_iff.mpr hf) name hlead).imp_left (h.map (·.name)).mem_iff.mp
  · rw [← hneeds]
    exact horder.acyclic

/-- Whether a set of files is loaded does not depend on the order of the files. -/
theorem exists_ofFiles_iff_of_perm {files' : List File} (hnames : (files.map (·.name)).Nodup)
    (hfit : AllFit (availableFiles files)) (h : files.Perm files') :
    (∃ lib, ofFiles files' = .ok lib) ↔ ∃ lib, ofFiles files = .ok lib := by
  have hfind := fileNamed?_of_perm (nodup_names_available hnames) (availableFiles_perm h)
  have hneeds : Needs (availableFiles files) = Needs (availableFiles files') := by
    funext a b
    unfold Needs
    rw [hfind]
  have hfit' : AllFit (availableFiles files') := by
    intro order l f hl hf
    rw [← hfind] at hf
    exact hfit order l f (hl.congr fun name => (hfind name).symm) hf
  rw [exists_ofFiles_iff hnames hfit, exists_ofFiles_iff ((h.map (·.name)).nodup_iff.mp hnames) hfit']
  exact ⟨fun horder => horder.of_perm h.symm hneeds.symm, fun horder => horder.of_perm h hneeds⟩

/-- A set of files with different names, each of which fits once those that it depends on are linked, is loaded just when
all that they lead to is there and no file depends on itself, in whatever order they are given. Then each file is linked
once and after those that it depends on. Otherwise a file is missing, or depends on itself. The recursion ends in any case:
it answers without nesting deeper than there are files, and one. -/
theorem linked_in_order (hnames : (files.map (·.name)).Nodup) (hfit : AllFit (availableFiles files)) :
    ((∃ lib, ofFiles files = .ok lib) ↔ HasOrder files) ∧
      (∀ lib, ofFiles files = .ok lib → ∃ order : List File, (Standard.fileName :: order.map (·.name)).Nodup ∧
        (∀ f ∈ order, f ∈ availableFiles files) ∧ (∀ f ∈ files, f.name ≠ Standard.fileName → f ∈ order) ∧
        (∀ earlier f, earlier ++ [f] <+: order →
          ∀ d ∈ f.dependencies, d ∈ earlier.map (·.name) ∨ d = Standard.fileName) ∧
        order.foldlM Pool.link? Standard.pool = some lib.pool) ∧
      (∀ files', files.Perm files' → ((∃ lib, ofFiles files' = .ok lib) ↔ ∃ lib, ofFiles files = .ok lib)) ∧
      (∀ fault, ofFiles files = .error fault → ∃ f ∈ files, FaultFrom (availableFiles files) f.name fault) ∧
      ∀ l name, loadWithin (availableFiles files) ((availableFiles files).length + 1) [] l name =
        some (loadFile (availableFiles files) [] l name) := by
  refine ⟨exists_ofFiles_iff hnames hfit, ?_, fun files' => exists_ofFiles_iff_of_perm hnames hfit, ?_, ?_⟩
  · intro lib hlib
    rcases linked_or_fault hnames hfit with ⟨order, l, h, hall, hok⟩ | ⟨f, hf, fault, h, hfault⟩
    · rw [hok] at hlib
      cases hlib
      refine ⟨order, ?_, ?_, ?_, fun earlier f => h.before, h.foldlM_link?⟩
      · have hnodup := h.nodup_names
        rw [h.names_eq, ← List.reverse_cons, List.nodup_reverse] at hnodup
        exact hnodup
      · exact fun f hf => List.mem_of_find?_eq_some (h.fileNamed?_eq hf)
      · exact fun f hf hname => h.mem_of_mem_names (fileNamed?_available hnames hf) hname (hall f hf)
    · rw [hfault] at hlib
      cases hlib
  · intro fault hlib
    rcases linked_or_fault hnames hfit with ⟨order, l, h, hall, hok⟩ | ⟨f, hf, fault', h, hfault⟩
    · rw [hok] at hlib
      cases hlib
    · rw [hfault] at hlib
      cases hlib
      exact ⟨f, hf, h⟩
  · intro l name
    have hcount : unvisited (availableFiles files) [] ≤ (availableFiles files).length := List.length_filter_le _ _
    exact loadWithin_eq (by omega) l name

end

/-- Files whose dependencies are known, and of a lower rank than they are, have an order. -/
theorem HasOrder.of_rank {files : List File} (rank : String → Nat)
    (hknown : ∀ f ∈ availableFiles files, ∀ d ∈ f.dependencies,
      d ∈ files.map (·.name) ∨ d = BytesHint.fileName ∨ d = Standard.fileName)
    (hrank : ∀ f ∈ availableFiles files, ∀ d ∈ f.dependencies, rank d < rank f.name) : HasOrder files := by
  have hlower : ∀ a b, Needs (availableFiles files) a b → rank b < rank a := by
    rintro a b ⟨-, f, hf, hb⟩
    have hname : f.name = a := by simpa using List.find?_some hf
    rw [← hname]
    exact hrank f (List.mem_of_find?_eq_some hf) b hb
  constructor
  · intro f _ name hlead
    obtain ⟨b, -, -, g, hg, hname⟩ := TransGen.tail'_iff.mp hlead
    exact hknown g (List.mem_of_find?_eq_some hg) name hname
  · intro name hback
    have hless : rank name < rank name := by
      have htrans : ∀ b, TransGen (Needs (availableFiles files)) name b → rank b < rank name := by
        intro b hlead
        induction hlead with
        | single hneeds => exact hlower _ _ hneeds
        | tail _ hneeds ih => exact Nat.lt_trans (hlower _ _ hneeds) ih
      exact htrans name hback
    exact Nat.lt_irrefl _ hless

/-- A file with one message type. -/
def record (name message : String) (fields : List Descriptor.Field) (dependencies : List String) : File :=
  { File.blank name "" with dependencies, messages := [Descriptor.Standard.message message fields] }

/-- A field that holds a message of another file. -/
def held (message : String) (number : Int) (name : String) : Descriptor.Field :=
  Descriptor.Standard.field .optional .message (some ("." ++ message)) number name

/-- A file that depends on another one in two ways, each time through a message that it holds, and a file for display hints
of the set's own. -/
def diamond : List File :=
  [record "app.proto" "App" [held "Left" 1 "left", held "Right" 2 "right"] ["left.proto", "right.proto"],
    record "left.proto" "Left" [held "Base" 1 "base"] ["base.proto"],
    record "right.proto" "Right" [held "Base" 1 "base", held "Hint" 2 "hint"] ["base.proto", BytesHint.fileName],
    record "base.proto" "Base" [Descriptor.Standard.one .uint64 1 "value"] [],
    record BytesHint.fileName "Hint" [Descriptor.Standard.one .string 1 "text"] [Standard.fileName]]

theorem areSeparate_diamond : AreSeparate diamond where
  names := by decide +kernel
  others := by decide +kernel
  lacking := by decide +kernel
  sound := by decide +kernel
  extensions := by decide +kernel
  services := by decide +kernel
  fields := by decide +kernel
  distinct := by decide +kernel
  apart := by decide +kernel
  new := by decide +kernel

theorem linked_in_order_diamond :
    (diamond.map (·.name)).Nodup ∧ AllFit (availableFiles diamond) ∧ HasOrder diamond ∧
      (∃ lib, ofFiles diamond = .ok lib ∧ ∃ order : List File, (Standard.fileName :: order.map (·.name)).Nodup ∧
        (∀ f ∈ diamond, f ∈ order) ∧ order.foldlM Pool.link? Standard.pool = some lib.pool) ∧
      ∃ lib, ofFiles diamond.reverse = .ok lib := by
  have hnames := areSeparate_diamond.names
  have hown : availableFiles diamond = diamond := rfl
  have hfit : AllFit (availableFiles diamond) := by
    rw [hown]
    exact areSeparate_diamond.allFit
  have horder : HasOrder diamond := by
    apply HasOrder.of_rank fun name =>
      [Standard.fileName, BytesHint.fileName, "base.proto", "left.proto", "right.proto", "app.proto"].idxOf name
    · rw [hown]
      decide
    · rw [hown]
      decide
  obtain ⟨hiff, hlinked, hperm, -, -⟩ := linked_in_order hnames hfit
  obtain ⟨lib, hlib⟩ := hiff.mpr horder
  obtain ⟨order, hnodup, -, hall, -, hpool⟩ := hlinked lib hlib
  exact ⟨hnames, hfit, horder, ⟨lib, hlib, order, hnodup, fun f hf => hall f hf (areSeparate_diamond.others f hf), hpool⟩,
    (hperm _ (List.reverse_perm diamond).symm).mpr ⟨lib, hlib⟩⟩

end Library

end ContractShell
