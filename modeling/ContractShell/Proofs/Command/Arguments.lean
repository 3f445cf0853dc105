import ContractShell.Proofs.Command.Boundary
import ContractShell.Proofs.Command.Spelling

/-!
The arguments of a command that was read in full.

Its tokens stand for the first declared arguments, in order. Each token spells a value of its argument's kind. The arguments
that are left are optional and have the empty value, so every declared argument has a value under its name.

## Main statements

* `Values.mem_names_setEach`: which names have values.
* `readArgs_left`: the arguments without a token are optional.
* `trace_settles`: what the arguments of the commands of a line hold.
-/

namespace ContractShell.Command

/-! ## 1. Values under names -/

namespace Values

theorem nodup_names_set {vs : Values} (h : (vs.map (·.1)).Nodup) (name value : String) :
    ((Values.set name value vs).map (·.1)).Nodup := by
  induction vs with
  | nil => simp [Values.set]
  | cons x r ih =>
    obtain ⟨n, v⟩ := x
    rw [List.map_cons, List.nodup_cons] at h
    rw [Values.set]
    by_cases hn : n = name
    · rw [if_pos hn, List.map_cons, List.nodup_cons]
      exact h
    · rw [if_neg hn, List.map_cons, List.nodup_cons]
      refine ⟨fun hmem => ?_, ih h.2⟩
      rcases mem_names_set.mp hmem with heq | hmem
      · exact hn heq
      · exact h.1 hmem

section

variable {α : Type} (name value : α → String)

theorem mem_names_setEach (items : List α) (vs : Values) (k : String) :
    k ∈ (setEach name value items vs).map (·.1) ↔ k ∈ items.map name ∨ k ∈ vs.map (·.1) := by
  induction items generalizing vs with
  | nil => simp [setEach]
  | cons x r ih =>
    show k ∈ (setEach name value r (Values.set (name x) (value x) vs)).map (·.1) ↔ _
    rw [ih, mem_names_set, List.map_cons, List.mem_cons]
    exact or_left_comm.trans or_assoc.symm

theorem nodup_names_setEach (items : List α) {vs : Values} (h : (vs.map (·.1)).Nodup) :
    ((setEach name value items vs).map (·.1)).Nodup := by
  induction items generalizing vs with
  | nil => exact h
  | cons x r ih => exact ih (nodup_names_set h (name x) (value x))

end

end Values

/-! ## 2. Tokens and the arguments that are left -/

theorem argReadings_args (args : List Arg) (s : List Char) :
    (argReadings args s).map (·.arg) = args.take (argReadings args s).length := by
  induction args generalizing s with
  | nil => rfl
  | cons a more ih =>
    unfold argReadings
    split
    · rfl
    · split
      · rfl
      · rename_i r _
        rw [List.map_cons, List.length_cons, List.take_succ_cons, ih]

-- From an optional argument on, all are optional.
theorem optional_of_optionalLast {a : Arg} {more : List Arg} (h : optionalLast (a :: more) = true)
    (ha : a.optional = true) : ∀ b ∈ a :: more, b.optional = true := by
  unfold optionalLast fromOptional at h
  rw [List.dropWhile_cons, if_neg (by simp [ha])] at h
  exact List.all_eq_true.mp h

theorem optionalLast_of_cons {a : Arg} {more : List Arg} (h : optionalLast (a :: more) = true) :
    optionalLast more = true := by
  cases ha : a.optional with
  | true =>
    refine List.all_eq_true.mpr fun b hb => ?_
    have hmem : b ∈ more := (List.dropWhile_suffix _).mem hb
    exact optional_of_optionalLast h ha b (List.mem_cons_of_mem a hmem)
  | false =>
    unfold optionalLast fromOptional at h
    rw [List.dropWhile_cons, if_pos (by simp [ha])] at h
    exact h

/-- The arguments without a token are optional. -/
theorem readArgs_left {previous : Option String} {args : List Arg} {p q : Progress} {ended : Option Termination}
    (h : readArgs previous args p = (q, .settled ended)) (hlast : optionalLast args = true) :
    ∀ a ∈ args.drop (argReadings args p.rest).length, a.optional = true := by
  induction args generalizing previous p with
  | nil => simp
  | cons a more ih =>
    rcases readArgs_settled h with ⟨hterm, ha, _, _⟩ | ⟨hterm, hblank, value, r, hread, hrest⟩
    · -- no token for this argument, and the command ended on it
      rw [argReadings, if_pos (.inl hterm)]
      exact optional_of_optionalLast hlast ha
    · rw [argReadings, if_neg (by simp [hterm, hblank]), hread]
      exact ih (p := ⟨_, _, r⟩) hrest (optionalLast_of_cons hlast)

/-! ## 3. Commands of a line -/

theorem settled_of_complete {commands : Registry} {name s : List Char} {i : Invocation}
    (hi : (readCommand commands name s).1 = i) (hcomplete : i.complete = true) :
    i.name = String.ofList name ∧ ∃ d q ended, commands.find? (String.ofList name) = some d ∧
      i.declaration = some d ∧ readArgs none d.args ⟨[], -1, s⟩ = (q, .settled ended) := by
  have hcommand : readCommand commands name s = (i, (readCommand commands name s).2) := Prod.ext hi rfl
  generalize (readCommand commands name s).2 = result at hcommand
  cases readsCommand hcommand with
  | unknown => cases hcomplete
  | broken => cases hcomplete
  | @ended d q t hfind hread => exact ⟨rfl, d, q, some t, hfind, rfl, hread⟩
  | @full d q hfind hread => exact ⟨rfl, d, q, none, hfind, rfl, hread⟩

/-- Each command of a line was read behind a name, together with its tokens. -/
theorem exists_command_of_mem {commands : Registry} {s : List Char} {x : Traced} (hx : x ∈ traceCommands commands s) :
    ∃ name r, r <:+ s ∧ (readCommand commands name r).1 = x.result ∧ x.tokens = commandReadings commands name r := by
  fun_induction traceCommands commands s with
  | case1 => cases hx
  | case2 => cases hx
  | case3 s hs name r hn i why hc =>
    rw [List.mem_singleton.mp hx]
    exact ⟨name, r, ⟨name, name?_append hn⟩, congrArg Prod.fst hc, rfl⟩
  | case4 s hs name r hn i t hc hsep hlt ih =>
    have hr : r <:+ s := ⟨name, name?_append hn⟩
    rcases List.mem_cons.mp hx with rfl | hmem
    · exact ⟨name, r, hr, congrArg Prod.fst hc, rfl⟩
    · obtain ⟨name', r', hr', hread⟩ := ih hmem
      exact ⟨name', r', (hr'.trans (readCommand_suffix hc)).trans hr, hread⟩
  | case5 s hs name r hn i t hc hsep =>
    rw [List.mem_singleton.mp hx]
    exact ⟨name, r, ⟨name, name?_append hn⟩, congrArg Prod.fst hc, rfl⟩

/-- The tokens of a command settle the arguments of a declaration: the first arguments have a token each, which stands in
the text and spells a value of the argument's kind; those that are left are optional. Exactly the declared names have
values. If they are different, the values are those of the tokens, and the empty value for each argument that is left. -/
structure Traced.Settles (x : Traced) (d : Declaration) (text : List Char) : Prop where
  names : ∀ name, name ∈ x.result.args.map (·.1) ↔ name ∈ d.args.map (·.name)
  once : (x.result.args.map (·.1)).Nodup
  given : x.tokens.map (·.arg) = d.args.take x.tokens.length
  spelled : ∀ r ∈ x.tokens, r.start <:+ text ∧
    ∃ token, r.start = token ++ r.rest ∧ r.arg.kind.Spells token r.value ∧ r.arg.kind.IsValue r.value
  left : ∀ a ∈ d.args.drop x.tokens.length, a.optional = true
  values : (d.args.map (·.name)).Nodup →
    x.result.args = (x.tokens.map fun r => (r.arg.name, String.ofList r.value)) ++
      (d.args.drop x.tokens.length).map fun a => (a.name, "")

theorem Traced.settles_of_complete {commands : Registry} {s text : List Char} (hs : s <:+ text) {x : Traced}
    (hx : x ∈ traceCommands commands s) (hcomplete : x.result.complete = true) :
    ∃ d, commands.find? x.result.name = some d ∧ x.result.declaration = some d ∧ x.Settles d text := by
  obtain ⟨name, r, hr, hi, htokens⟩ := exists_command_of_mem hx
  obtain ⟨hname, d, q, ended, hfind, hdecl, hread⟩ := settled_of_complete hi hcomplete
  have hargs : x.tokens = argReadings d.args r := by
    rw [htokens, commandReadings, hfind]
    rfl
  have hgiven : x.tokens.map (·.arg) = d.args.take x.tokens.length := by
    rw [hargs]
    exact argReadings_args d.args r
  have hnames : x.tokens.map (·.arg.name) = (d.args.take x.tokens.length).map (·.name) := by
    rw [← hgiven, List.map_map]
    rfl
  have hsplit : d.args.map (·.name) =
      (d.args.take x.tokens.length).map (·.name) ++ (d.args.drop x.tokens.length).map (·.name) := by
    rw [← List.map_append, List.take_append_drop]
  -- The values are set for the tokens first, and then for the arguments that are left.
  have hvalues : x.result.args =
      Values.setEach (·.name) (fun _ => "") (d.args.drop x.tokens.length)
        (Values.setEach (·.arg.name) (fun r => String.ofList r.value) x.tokens []) := by
    rw [traceCommands_values hx hcomplete, Traced.values, Traced.declared_of_declaration hdecl]
    rfl
  refine ⟨d, by rw [hname, hfind], hdecl, ?_, ?_, hgiven, ?_, ?_, ?_⟩
  · intro k
    rw [hvalues, Values.mem_names_setEach, Values.mem_names_setEach, hnames, hsplit, List.mem_append, List.map_nil]
    simp only [List.not_mem_nil, or_false]
    exact or_comm
  · rw [hvalues]
    exact Values.nodup_names_setEach _ _ _ (Values.nodup_names_setEach _ _ _ List.nodup_nil)
  · intro t ht
    rw [hargs] at ht
    obtain ⟨hstart, -, hkind⟩ := argReadings_suffix ht
    obtain ⟨token, htoken, hspells⟩ := Kind.exists_spelling hkind
    exact ⟨(hstart.trans hr).trans hs, token, htoken, hspells, hspells.isValue⟩
  · rw [hargs]
    exact readArgs_left (p := ⟨[], -1, r⟩) hread d.args_ordered
  · intro hnodup
    rw [hsplit, ← hnames] at hnodup
    obtain ⟨hfirst, hrest, hapart⟩ := List.nodup_append.mp hnodup
    rw [hvalues, Values.setEach_eq _ _ hfirst (by simp), List.nil_append, Values.setEach_eq _ _ hrest]
    intro a ha hmem
    rw [List.map_map] at hmem
    exact hapart _ hmem _ (List.mem_map_of_mem ha) rfl

/-- What the arguments of the commands of a line hold that were read in full. -/
theorem trace_settles (commands : Registry) (text : String) :
    (Line.trace commands text).map Traced.result = (Line.ofText commands text).results ∧
      ∀ x ∈ Line.trace commands text, x.result.complete = true →
        ∃ d, commands.find? x.result.name = some d ∧ x.result.declaration = some d ∧ x.Settles d text.toList := by
  exact ⟨traceCommands_results _ _, fun x hx hcomplete => Traced.settles_of_complete (gap_suffix _) hx hcomplete⟩

-- An upload of which only the file is given; the four arguments behind it are left.
theorem trace_settles_upload :
    ∃ x ∈ Line.trace Registry.standard "upload code.wasm", x.result.complete = true ∧ x.tokens.length = 1 ∧
      ∃ d, Registry.standard.find? x.result.name = some d ∧ x.result.declaration = some d ∧
        x.Settles d "upload code.wasm".toList := by
  have hname : name? "upload code.wasm".toList = some ("upload".toList, " code.wasm".toList) := by decide
  have hread : (readCommand Registry.standard "upload".toList " code.wasm".toList).2 = .ok [] := by rfl
  have hend : (readCommand Registry.standard "upload".toList " code.wasm".toList).1.termination = .endOfInput := by rfl
  have hdone : (readCommand Registry.standard "upload".toList " code.wasm".toList).1.complete = true := by rfl
  have hcount : (commandReadings Registry.standard "upload".toList " code.wasm".toList).length = 1 := by rfl
  have hstart : (gap "upload code.wasm".toList).rest = "upload code.wasm".toList := by rfl
  have hx : ⟨(readCommand Registry.standard "upload".toList " code.wasm".toList).1,
      commandReadings Registry.standard "upload".toList " code.wasm".toList⟩ ∈
        Line.trace Registry.standard "upload code.wasm" := by
    unfold Line.trace
    rw [hstart, traceCommands_of_last hname hread (by rw [hend]; decide)]
    exact List.mem_singleton.mpr rfl
  exact ⟨_, hx, hdone, hcount, (trace_settles Registry.standard "upload code.wasm").2 _ hx hdone⟩

end ContractShell.Command
