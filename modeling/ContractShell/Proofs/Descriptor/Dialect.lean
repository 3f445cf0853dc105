import ContractShell.Descriptor.Standard

/-!
Features in files that have no edition.

Only a file with an edition can choose features. A file without one is refused when options in it choose some, so what holds
for its definitions are the features of its dialect, except that a required field and a group say so themselves.

## Main statements

* `File.features_of_dialect`: all message types of such a file have the features of its dialect.
* `File.leavesZeroOut_of_dialect`: a field is left out when it is zero only in the third dialect.
-/

namespace ContractShell.Descriptor

open Wire (itemsOf joinedPayload? payloads)

/-! ## 1. Options without choices -/

/-- No options among some choose features. -/
def ChooseNothing (sites : List OptionSite) : Prop := ∀ s ∈ sites, s.choosesFeatures = false

/-- Options that choose nothing leave the features as they are. -/
theorem within_of_chooseNothing {path : String} {sort : Definition} {options : Option Bytes}
    (h : ChooseNothing (siteAt path sort false options)) (features : Features) :
    features.within sort.featurePart options = features := by
  have hnone : Features.choices? sort.featurePart options = none := by
    cases options with
    | none => rfl
    | some b =>
      have hsite : OptionSite.choosesFeatures ⟨path, sort, false, b⟩ = false := h _ List.mem_cons_self
      have hempty : payloads sort.featurePart (itemsOf b) = [] := by
        simpa [OptionSite.choosesFeatures] using hsite
      show joinedPayload? sort.featurePart (itemsOf b) = none
      unfold joinedPayload?
      rw [hempty]
  unfold Features.within
  rw [hnone]

theorem ChooseNothing.of_sitesIn {α : Type} {sites : String → α → List OptionSite} {path name : String} {ds : List α}
    (h : ChooseNothing (sitesIn sites path name ds)) {d : α} (hd : d ∈ ds) : ∃ path, ChooseNothing (sites path d) := by
  obtain ⟨i, hi, rfl⟩ := List.mem_iff_getElem.mp hd
  unfold sitesIn at h
  have hparts : ∀ part ∈ _, ChooseNothing part := fun part hpart s hs => h s (List.mem_flatten.mpr ⟨part, hpart, hs⟩)
  have hpart := hparts _ (List.mem_mapIdx.mpr ⟨i, hi, rfl⟩)
  exact ⟨_, hpart⟩

theorem ChooseNothing.of_nestedSites {path : String} {place : Nat} {ms : List Message}
    (h : ChooseNothing (nestedSites path place ms)) : ∀ m ∈ ms, ∃ path, ChooseNothing (m.sites path) := by
  induction ms generalizing place with
  | nil =>
    intro m hm
    cases hm
  | cons first ms ih =>
    rw [nestedSites] at h
    obtain ⟨hfirst, hrest⟩ := List.forall_mem_append.mp h
    intro m hm
    rcases List.mem_cons.mp hm with rfl | hm
    · exact ⟨_, hfirst⟩
    · exact ih hrest m hm

/-! ## 2. Message types -/

/-- The parts of a message type whose options choose nothing. -/
theorem Message.parts_of_chooseNothing {m : Message} {path : String} (h : ChooseNothing (m.sites path)) :
    (∀ f ∈ m.fields, ∃ path, ChooseNothing (f.sites path)) ∧ (∀ n ∈ m.nested, ∃ path, ChooseNothing (n.sites path)) ∧
      ChooseNothing (siteAt path .message false m.options) ∧
      ∀ o ∈ m.oneofs, ∃ path, ChooseNothing (siteAt path .oneof false o.options) := by
  obtain ⟨name, fields, extensions, nested, enums, oneofs, extensionRanges, reserved, options⟩ := m
  rw [Message.sites] at h
  unfold ChooseNothing at h
  simp only [List.forall_mem_append] at h
  obtain ⟨⟨⟨⟨⟨⟨hfields, hnested⟩, -⟩, -⟩, -⟩, hown⟩, honeofs⟩ := h
  refine ⟨fun f hf => ?_, ChooseNothing.of_nestedSites hnested, hown, fun o ho => ?_⟩
  · exact ChooseNothing.of_sitesIn hfields hf
  · exact ChooseNothing.of_sitesIn honeofs ho

mutual

/-- What is nested in a message type whose options choose nothing has the features around it. -/
theorem Message.features_withNested (m : Message) (scope : String) (outer : Features)
    (h : ∃ path, ChooseNothing (m.sites path)) :
    ∀ x ∈ m.withNested scope outer, x.2.1 = outer ∧ ∃ path, ChooseNothing (x.2.2.sites path) := by
  have hchoose := h
  obtain ⟨path, hsites⟩ := h
  obtain ⟨-, hnested, hown, -⟩ := Message.parts_of_chooseNothing hsites
  have hsame : m.featuresIn outer = outer := within_of_chooseNothing hown outer
  obtain ⟨name, fields, extensions, nested, enums, oneofs, extensionRanges, reserved, options⟩ := m
  intro x hx
  rw [Message.withNested, hsame] at hx
  rcases List.mem_cons.mp hx with rfl | hx
  · exact ⟨rfl, hchoose⟩
  · exact features_withNestedOf nested _ outer hnested x hx

theorem features_withNestedOf (ms : List Message) (scope : String) (outer : Features)
    (h : ∀ m ∈ ms, ∃ path, ChooseNothing (m.sites path)) :
    ∀ x ∈ withNestedOf scope outer ms, x.2.1 = outer ∧ ∃ path, ChooseNothing (x.2.2.sites path) := by
  cases ms with
  | nil =>
    intro x hx
    rw [withNestedOf] at hx
    cases hx
  | cons m r =>
    intro x hx
    rw [withNestedOf] at hx
    rcases List.mem_append.mp hx with hx | hx
    · exact Message.features_withNested m scope outer (h m List.mem_cons_self) x hx
    · exact features_withNestedOf r scope outer (fun n hn => h n (List.mem_cons_of_mem _ hn)) x hx

end

/-- A field of such a message type has the features around it, but for what its label and its type say themselves. -/
theorem Message.featuresOf_of_chooseNothing {m : Message} {path : String} (h : ChooseNothing (m.sites path))
    {f : Field} (hf : f ∈ m.fields) (features : Features) :
    m.featuresOf false features f =
      if f.isInferred then
        { features with
          presence := if f.label == some .required then .required else features.presence
          delimited := if f.type == some .group then true else features.delimited }
      else features := by
  obtain ⟨hfields, -, -, honeofs⟩ := Message.parts_of_chooseNothing h
  -- A oneof around the field chooses nothing either.
  have houter : m.featuresOf false features f = f.features false features := by
    unfold Message.featuresOf
    split
    · rename_i o ho
      obtain ⟨i, -, hi⟩ := Option.bind_eq_some_iff.mp ho
      obtain ⟨path, hsites⟩ := honeofs o (List.mem_of_getElem? hi)
      rw [within_of_chooseNothing hsites]
    · rfl
  rw [houter]
  unfold Field.features
  cases hinferred : f.isInferred with
  | true => rfl
  | false =>
    obtain ⟨path, hsites⟩ := hfields f hf
    unfold Field.sites at hsites
    rw [hinferred] at hsites
    exact within_of_chooseNothing hsites features

/-- A field of such a message type is required when its label says so, and is otherwise present as the features around it
have it. -/
theorem Message.presence_of_chooseNothing {m : Message} {path : String} (h : ChooseNothing (m.sites path))
    {f : Field} (hf : f ∈ m.fields) (features : Features) :
    (m.featuresOf false features f).presence = if f.label = some .required then .required else features.presence := by
  rw [Message.featuresOf_of_chooseNothing h hf]
  by_cases hinferred : f.isInferred = true
  · rw [if_pos hinferred]
    simp only [beq_iff_eq]
  · have hlabel : f.label ≠ some .required := by
      intro hrequired
      apply hinferred
      unfold Field.isInferred
      simp [hrequired]
    rw [if_neg hinferred, if_neg hlabel]

/-- Whether the text of such a field is checked is up to the features around it. -/
theorem Message.checksText_of_chooseNothing {m : Message} {path : String} (h : ChooseNothing (m.sites path))
    {f : Field} (hf : f ∈ m.fields) (features : Features) :
    (m.featuresOf false features f).checksText = features.checksText := by
  rw [Message.featuresOf_of_chooseNothing h hf]
  by_cases hinferred : f.isInferred = true
  · rw [if_pos hinferred]
  · rw [if_neg hinferred]

/-! ## 3. Files -/

section

variable {f : File}

/-- A file without an edition that keeps the rules has the features of its dialect, and no options in it choose any. -/
theorem File.base_of_dialect (hsound : f.isSound = true) (hedition : f.hasEdition = false) :
    f.base? = some (if f.isThird then .third else .second) ∧ ChooseNothing f.sites := by
  have hbase : f.base?.isSome = true := by
    simp only [File.isSound, Bool.and_eq_true] at hsound
    exact hsound.1.1.1.1.1.1.2
  unfold File.base? at hbase ⊢
  rw [hedition] at hbase ⊢
  simp only [Bool.false_eq_true, if_false] at hbase ⊢
  by_cases hchoice : (f.edition.isSome || f.choosesFeatures) = true
  · rw [if_pos hchoice] at hbase
    cases hbase
  · rw [if_neg hchoice] at hbase ⊢
    constructor
    · by_cases hthird : f.isThird = true
      · rw [if_pos hthird, if_pos hthird]
      · rw [if_neg hthird] at hbase ⊢
        rw [if_neg hthird]
        by_cases hsecond : (f.dialect.isNone || f.dialect == some "proto2") = true
        · rw [if_pos hsecond]
        · rw [if_neg hsecond] at hbase
          cases hbase
    · rw [Bool.not_eq_true, Bool.or_eq_false_iff] at hchoice
      intro s hs
      have hany := List.any_eq_false.mp hchoice.2 s hs
      exact Bool.not_eq_true _ ▸ hany

theorem File.features_of_dialect (hsound : f.isSound = true) (hedition : f.hasEdition = false) :
    ∀ x ∈ f.featuredMessages, x.2.1 = (if f.isThird then .third else .second) ∧
      ∃ path, ChooseNothing (x.2.2.sites path) := by
  obtain ⟨hbase, hsites⟩ := File.base_of_dialect hsound hedition
  unfold File.sites ChooseNothing at hsites
  simp only [List.forall_mem_append] at hsites
  obtain ⟨⟨⟨⟨hmessages, -⟩, -⟩, -⟩, hown⟩ := hsites
  have hfeatures : f.features = if f.isThird then .third else .second := by
    unfold File.features
    rw [within_of_chooseNothing hown, hbase]
    rfl
  intro x hx
  unfold File.featuredMessages at hx
  rw [← hfeatures]
  exact features_withNestedOf f.messages _ _ (fun m hm => ChooseNothing.of_sitesIn hmessages hm) x hx

/-- A file without an edition and with a name of its own, in which the types of fields are named in full. -/
def File.isUsual (f : File) : Bool :=
  f.name != Standard.fileName && !f.hasEdition &&
    f.featuredMessages.all fun x => x.2.2.fields.all fun g => g.typeName.all fun name => name.toList.head? == some '.'

/-- A field that is left out when it is zero has no default besides zero, and is not required. -/
def File.LeavesZeroOut (f : File) : Prop :=
  ∀ x ∈ f.featuredMessages, ∀ g ∈ x.2.2.fields, (x.2.2.featuresOf f.hasEdition x.2.1 g).presence = .implicit →
    (f.isThird = true ∨ g.default = none) ∧ g.label ≠ some .required

theorem File.leavesZeroOut_of_dialect (hsound : f.isSound = true) (hedition : f.hasEdition = false) :
    f.LeavesZeroOut := by
  intro x hx g hg himplicit
  obtain ⟨hfeatures, path, hsites⟩ := File.features_of_dialect hsound hedition x hx
  rw [hedition, Message.presence_of_chooseNothing hsites hg, hfeatures] at himplicit
  by_cases hlabel : g.label = some .required
  · rw [if_pos hlabel] at himplicit
    cases himplicit
  · rw [if_neg hlabel] at himplicit
    refine ⟨.inl ?_, hlabel⟩
    -- The fields of the second dialect tell whether they were given.
    by_cases hthird : f.isThird = true
    · exact hthird
    · rw [if_neg hthird] at himplicit
      cases himplicit

end

end ContractShell.Descriptor
