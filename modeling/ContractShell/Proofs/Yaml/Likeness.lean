import Mathlib.Data.Finset.Card
import Mathlib.Data.List.Forall2
import ContractShell.Proofs.Correspondence
import ContractShell.Yaml.Document

/-!
Documents that say the same.

Objects have numbers, and what is not a number has an origin, but neither is part of what a document says. Two documents
are alike when their objects can be matched one to one so that matched objects hold alike values. Alike documents are
shown as the same text, although the rest of their objects may differ.

## Main statements

* `shownInside_eq_of_alike`: alike values are shown as the same text, given enough fuel for both.
* `Document.Alike.shown?_eq`, `shownItems?_eq`: so are alike documents, and the items of alike lists.
-/

namespace ContractShell.Yaml

/-! ## 1. Likeness -/

/-- Values are alike when they are the same, but for the numbers of objects, which are matched, and for the origin of
floating-point numbers. -/
inductive Value.Alike (R : Nat → Nat → Prop) : Value → Value → Prop where
  | float (x : Binary64) (a b : Nat) : Value.Alike R (.float x a) (.float x b)
  | object {m n : Nat} (h : R m n) : Value.Alike R (.object m) (.object n)
  /-- A value that holds no others. -/
  | plain {v : Value} (h : v.isKey = true) : Value.Alike R v v

/-- The two values of a pair are alike to those of another. -/
def Value.PairAlike (R : Nat → Nat → Prop) (p q : Value × Value) : Prop :=
  Value.Alike R p.1 q.1 ∧ Value.Alike R p.2 q.2

/-- Objects are alike when they are of one kind and hold alike values in the same order. -/
inductive Object.Alike (R : Nat → Nat → Prop) : Object → Object → Prop where
  | list {xs ys : List Value} (h : List.Forall₂ (Value.Alike R) xs ys) : Object.Alike R (.list xs) (.list ys)
  | pairs {xs ys : List (Value × Value)} (h : List.Forall₂ (Value.PairAlike R) xs ys) :
      Object.Alike R (.pairs xs) (.pairs ys)
  | mapping {xs ys : List (Value × Value)} (h : List.Forall₂ (Value.PairAlike R) xs ys) :
      Object.Alike R (.mapping xs) (.mapping ys)
  | set {xs ys : List Value} (h : List.Forall₂ (Value.Alike R) xs ys) : Object.Alike R (.set xs) (.set ys)

/-- Objects are matched one to one, and those that are matched are alike. -/
structure Objects.Match (os ps : Objects) (R : Nat → Nat → Prop) : Prop where
  fst_unique : ∀ {m m' n}, R m n → R m' n → m = m'
  snd_unique : ∀ {m n n'}, R m n → R m n' → n = n'
  alike : ∀ {m n}, R m n → Option.Rel (Object.Alike R) (os.get? m) (ps.get? n)

/-- Documents are alike when their values are, for some way to match their objects. -/
def Document.Alike (d e : Document) : Prop :=
  ∃ R, Objects.Match d.objects e.objects R ∧ Value.Alike R d.root e.root

theorem Value.alike_eq (v : Value) : Value.Alike Eq v v := by
  cases v with
  | object number => exact .object rfl
  | _ => exact .plain rfl

/-- A document is like itself. -/
theorem Document.Alike.refl (d : Document) : d.Alike d := by
  refine ⟨Eq, ⟨fun h h' => h.trans h'.symm, fun h h' => h.symm.trans h', ?_⟩, Value.alike_eq _⟩
  rintro m n rfl
  have hpair : ∀ p, Value.PairAlike Eq p p := fun p => ⟨Value.alike_eq _, Value.alike_eq _⟩
  cases d.objects.get? m with
  | none => exact .none
  | some o =>
    refine .some ?_
    cases o with
    | list items => exact .list (List.forall₂_same.mpr fun v _ => Value.alike_eq v)
    | pairs items => exact .pairs (List.forall₂_same.mpr fun p _ => hpair p)
    | mapping items => exact .mapping (List.forall₂_same.mpr fun p _ => hpair p)
    | set items => exact .set (List.forall₂_same.mpr fun v _ => Value.alike_eq v)

/-! ## 2. Objects inside of objects -/

/-- How many objects are not among those of some numbers. -/
def Objects.unseen (os : Objects) (around : List Nat) : Nat := ((os.map (·.1)).toFinset \ around.toFinset).card

theorem Objects.unseen_le (os : Objects) (around : List Nat) : os.unseen around ≤ os.length := by
  have hsub := Finset.card_le_card (Finset.sdiff_subset (s := (os.map (·.1)).toFinset) (t := around.toFinset))
  have hlen := List.toFinset_card_le (os.map (·.1))
  rw [List.length_map] at hlen
  exact hsub.trans hlen

/-- One object less is unseen inside of another one. -/
theorem Objects.unseen_cons_lt {os : Objects} {number : Nat} {o : Object} {around : List Nat}
    (ho : os.get? number = some o) (haround : around.contains number = false) :
    os.unseen (number :: around) < os.unseen around := by
  obtain ⟨p, hp, -⟩ := Option.map_eq_some_iff.mp ho
  have hnumber : p.1 = number := by simpa using List.find?_some hp
  have hmem : number ∈ (os.map (·.1)).toFinset :=
    List.mem_toFinset.mpr (List.mem_map.mpr ⟨p, List.mem_of_find?_eq_some hp, hnumber⟩)
  have hfresh : number ∉ around.toFinset := by simpa using haround
  unfold Objects.unseen
  rw [List.toFinset_cons, Finset.sdiff_insert]
  exact Finset.card_erase_lt_of_mem (Finset.mem_sdiff.mpr ⟨hmem, hfresh⟩)

/-- Matched numbers stand in the same objects. -/
theorem Objects.Match.contains_eq {os ps : Objects} {R : Nat → Nat → Prop} (hmatch : Objects.Match os ps R) {m n : Nat}
    (h : R m n) {around around' : List Nat} (haround : List.Forall₂ R around around') :
    around.contains m = around'.contains n := by
  induction haround with
  | nil => rfl
  | @cons a b as bs hab _ ih =>
    have hhead : (m == a) = (n == b) := by
      rw [Bool.eq_iff_iff, beq_iff_eq, beq_iff_eq]
      constructor
      · rintro rfl
        exact hmatch.snd_unique h hab
      · rintro rfl
        exact hmatch.fst_unique h hab
    rw [List.contains_cons, List.contains_cons, hhead, ih]

namespace Document

/-! ## 3. Alike values are shown alike -/

variable {R : Nat → Nat → Prop} {inside inside' : Value → Option String}

theorem shownPair_eq (hinside : ∀ v w, Value.Alike R v w → inside v = inside' w) {p q : Value × Value}
    (h : Value.PairAlike R p q) : shownPair inside p = shownPair inside' q := by
  unfold shownPair
  rw [hinside _ _ h.1, hinside _ _ h.2]

theorem shownMember_eq (hinside : ∀ v w, Value.Alike R v w → inside v = inside' w) {p q : Value × Value}
    (h : Value.PairAlike R p q) : shownMember inside p = shownMember inside' q := by
  unfold shownMember
  rw [hinside _ _ h.1, hinside _ _ h.2]

theorem shownObject_eq (hinside : ∀ v w, Value.Alike R v w → inside v = inside' w) {o p : Object}
    (h : Object.Alike R o p) : shownObject inside o = shownObject inside' p := by
  cases h with
  | list h => rw [shownObject, shownObject, mapM_eq_of_forall₂ hinside h]
  | pairs h => rw [shownObject, shownObject, mapM_eq_of_forall₂ (fun _ _ hpq => shownPair_eq hinside hpq) h]
  | mapping h => rw [shownObject, shownObject, mapM_eq_of_forall₂ (fun _ _ hpq => shownMember_eq hinside hpq) h]
  | set h =>
    cases h with
    | nil => rfl
    | cons hv h =>
      have hitems := mapM_eq_of_forall₂ hinside (.cons hv h)
      rw [shownObject, shownObject, hitems]
      · simp
      · simp

theorem shownAgain_eq {o p : Object} (h : Object.Alike R o p) : shownAgain o = shownAgain p := by
  cases h <;> rfl

/-- Alike values inside of matched objects are shown as the same text. The fuel may differ, as long as each has more than
there are objects left to come upon. -/
theorem shownInside_eq_of_alike {os ps : Objects} (hmatch : Objects.Match os ps R) (fuel fuel' : Nat)
    {around around' : List Nat} (haround : List.Forall₂ R around around') (hfuel : os.unseen around < fuel)
    (hfuel' : ps.unseen around' < fuel') {v w : Value} (h : Value.Alike R v w) :
    shownInside os fuel around v = shownInside ps fuel' around' w := by
  -- on the fuel of one side: each object that is shown is seen from then on, on both sides
  induction fuel generalizing fuel' around around' v w with
  | zero => exact absurd hfuel (Nat.not_lt_zero _)
  | succ fuel ih =>
    cases fuel' with
    | zero => exact absurd hfuel' (Nat.not_lt_zero _)
    | succ fuel' =>
      cases h with
      | float => rfl
      | plain h =>
        cases v with
        | object => cases h
        | _ => rfl
      | @object m n h =>
        simp only [shownInside]
        have hseen := hmatch.contains_eq h haround
        have halike := hmatch.alike h
        cases ho : os.get? m with
        | none =>
          rw [ho] at halike
          cases hp : ps.get? n with
          | none => rfl
          | some p =>
            rw [hp] at halike
            cases halike
        | some o =>
          rw [ho] at halike
          cases hp : ps.get? n with
          | none =>
            rw [hp] at halike
            cases halike
          | some p =>
            rw [hp] at halike
            cases halike with
            | some halike =>
              cases hcontains : around.contains m with
              | true =>
                rw [hcontains] at hseen
                simp only [← hseen, if_true, shownAgain_eq halike]
              | false =>
                rw [hcontains] at hseen
                simp only [← hseen, Bool.false_eq_true, if_false]
                have hless := Objects.unseen_cons_lt ho hcontains
                have hless' := Objects.unseen_cons_lt hp hseen.symm
                exact shownObject_eq (fun v w hvw => ih fuel' (.cons h haround) (by omega) (by omega) hvw) halike

namespace Alike

variable {d e : Document}

-- The fuel that a document is shown with is enough for all its objects.
theorem shownInside_eq (hmatch : Objects.Match d.objects e.objects R) {v w : Value} (h : Value.Alike R v w) :
    shownInside d.objects (d.objects.length + 2) [] v = shownInside e.objects (e.objects.length + 2) [] w := by
  have hd := d.objects.unseen_le []
  have he := e.objects.unseen_le []
  exact shownInside_eq_of_alike hmatch _ _ .nil (by omega) (by omega) h

theorem shown?_eq_of_match (hmatch : Objects.Match d.objects e.objects R) (h : Value.Alike R d.root e.root) :
    d.shown? = e.shown? := by
  have hinside := shownInside_eq hmatch h
  unfold shown?
  generalize d.root = v, e.root = w at h hinside
  cases h with
  | float => exact hinside
  | object => exact hinside
  | plain h =>
    cases v with
    | text | date | instant => rfl
    | _ => exact hinside

/-- Alike documents are shown as the same text. -/
theorem shown?_eq (h : d.Alike e) : d.shown? = e.shown? := by
  obtain ⟨R, hmatch, hroot⟩ := h
  exact shown?_eq_of_match hmatch hroot

/-- The items of alike lists are shown as the same texts. -/
theorem shownItems?_eq (h : d.Alike e) : d.shownItems? = e.shownItems? := by
  obtain ⟨R, hmatch, hroot⟩ := h
  have hobject : Option.Rel (Object.Alike R) d.object? e.object? := by
    unfold object?
    generalize d.root = v, e.root = w at hroot
    cases hroot with
    | float => exact .none
    | object h => exact hmatch.alike h
    | plain h =>
      cases v with
      | object => cases h
      | _ => exact .none
  unfold shownItems?
  generalize d.object? = o, e.object? = p at hobject
  cases hobject with
  | none => rfl
  | some halike =>
    cases halike with
    | list hitems =>
      refine congrArg some (map_eq_of_forall₂ (fun v w hvw => ?_) hitems)
      exact shown?_eq_of_match (d := d.withRoot v) (e := e.withRoot w) hmatch hvw
    | pairs hitems =>
      refine congrArg some (map_eq_of_forall₂ (fun p q hpq => ?_) hitems)
      exact shownPair_eq (fun v w => shownInside_eq hmatch) hpq
    | mapping | set => rfl

end Alike

end Document

end ContractShell.Yaml
