import ContractShell.Proofs.Correspondence
import ContractShell.Proofs.Json.Strings
import ContractShell.Proofs.Number.Numeral
import Mathlib.Data.List.Perm.Basic
import Mathlib.Data.List.Sort
import Mathlib.Data.String.Basic

/-!
The canonical text of a document stands for the document up to the order of the members of its objects.

Sorting the keys takes two documents to the same one exactly if they differ in the order of members only, and the compact
text of a document without fractions shows the document and where it ends.

## Main statements

* `sortKeys_eq_iff`: sorting the keys tells apart what differs in more than the order of members.
* `compact_append_inj`: a compact text shows where it ends.
* `encode_canonical_eq_iff`: canonical texts have equal bytes exactly if the documents are the same up to order.
-/

namespace ContractShell.Json

/-! ## 1. Documents up to the order of members -/

mutual

/-- A document without fractions, with no key twice in an object. -/
def isProper : Json → Bool
  | .float _ => false
  | .arr items => itemsAreProper items
  | .obj m => decide (m.map Prod.fst).Nodup && membersAreProper m
  | _ => true

/-- Every item is proper. -/
def itemsAreProper : List Json → Bool
  | [] => true
  | x :: r => isProper x && itemsAreProper r

/-- Every value is proper. -/
def membersAreProper : List (String × Json) → Bool
  | [] => true
  | (_, v) :: r => isProper v && membersAreProper r

end

mutual

/-- Two documents are equal up to the order of the members of their objects. -/
inductive Same : Json → Json → Prop where
  | null : Same .null .null
  | bool (b : Bool) : Same (.bool b) (.bool b)
  | int (n : Int) : Same (.int n) (.int n)
  | float (x : Binary64) : Same (.float x) (.float x)
  | str (s : String) : Same (.str s) (.str s)
  | arr {a b : List Json} (h : SameItems a b) : Same (.arr a) (.arr b)
  | obj {m n o : List (String × Json)} (horder : m.Perm n) (h : SameMembers n o) : Same (.obj m) (.obj o)

/-- Item by item. -/
inductive SameItems : List Json → List Json → Prop where
  | nil : SameItems [] []
  | cons {x y : Json} {a b : List Json} (hx : Same x y) (h : SameItems a b) : SameItems (x :: a) (y :: b)

/-- Member by member, under the same keys. -/
inductive SameMembers : List (String × Json) → List (String × Json) → Prop where
  | nil : SameMembers [] []
  | cons {key : String} {v w : Json} {m n : List (String × Json)} (hv : Same v w) (h : SameMembers m n) :
      SameMembers ((key, v) :: m) ((key, w) :: n)

end

theorem itemsAreProper_iff (items : List Json) : itemsAreProper items = true ↔ ∀ x ∈ items, isProper x = true := by
  induction items with
  | nil => simp [itemsAreProper]
  | cons x r ih => simp [itemsAreProper, ih]

theorem membersAreProper_iff (m : List (String × Json)) :
    membersAreProper m = true ↔ ∀ p ∈ m, isProper p.2 = true := by
  induction m with
  | nil => simp [membersAreProper]
  | cons p r ih =>
    obtain ⟨k, v⟩ := p
    simp only [membersAreProper, Bool.and_eq_true, ih, List.forall_mem_cons]

@[simp] theorem isProper_str (s : String) : isProper (.str s) = true := rfl

@[simp] theorem isProper_arr (items : List Json) : isProper (.arr items) = true ↔ ∀ x ∈ items, isProper x = true :=
  itemsAreProper_iff items

@[simp] theorem isProper_obj (m : List (String × Json)) :
    isProper (.obj m) = true ↔ (m.map Prod.fst).Nodup ∧ ∀ p ∈ m, isProper p.2 = true := by
  rw [isProper, Bool.and_eq_true, decide_eq_true_eq, membersAreProper_iff]

/-- What holds of plain values, and of a list or an object when it holds of its parts, holds of every document. -/
theorem inductionOnParts {P : Json → Prop} (null : P .null) (bool : ∀ b, P (.bool b)) (int : ∀ n, P (.int n))
    (float : ∀ x, P (.float x)) (str : ∀ s, P (.str s)) (arr : ∀ items, (∀ x ∈ items, P x) → P (.arr items))
    (obj : ∀ m, (∀ p ∈ m, P p.2) → P (.obj m)) (v : Json) : P v := by
  refine @Json.rec P (fun items => ∀ x ∈ items, P x) (fun m => ∀ p ∈ m, P p.2) (fun p => P p.2)
    null bool int float str arr obj ?_ ?_ ?_ ?_ ?_ v
  · exact fun _ hx => nomatch hx
  · exact fun x r hx hr => List.forall_mem_cons.mpr ⟨hx, hr⟩
  · exact fun _ hp => nomatch hp
  · exact fun p r hp hr => List.forall_mem_cons.mpr ⟨hp, hr⟩
  · exact fun _ _ hv => hv

/-! ## 2. Sorting -/

/-- A member with the keys inside its value sorted. -/
def sortMember (p : String × Json) : String × Json := (p.1, sortKeys p.2)

theorem sortItems_eq (items : List Json) : sortItems items = items.map sortKeys := by
  induction items with
  | nil => rfl
  | cons x r ih => rw [sortItems, ih, List.map_cons]

theorem sortValues_eq (m : List (String × Json)) : sortValues m = m.map sortMember := by
  induction m with
  | nil => rfl
  | cons p r ih => rw [sortValues, ih, List.map_cons, sortMember]

theorem sortKeys_arr (items : List Json) : sortKeys (.arr items) = .arr (items.map sortKeys) := by
  rw [sortKeys, sortItems_eq]

theorem sortKeys_obj (m : List (String × Json)) : sortKeys (.obj m) = .obj (sortMembers (m.map sortMember)) := by
  rw [sortKeys, sortValues_eq]

theorem map_fst_sortMember (m : List (String × Json)) : (m.map sortMember).map Prod.fst = m.map Prod.fst := by
  rw [List.map_map]
  rfl

theorem sortMembers_perm (m : List (String × Json)) : (sortMembers m).Perm m := List.mergeSort_perm ..

/-- The order in which members stand does not matter to sorting when no key occurs twice. -/
theorem sortMembers_eq_of_perm {m n : List (String × Json)} (h : m.Perm n) (hkeys : (m.map Prod.fst).Nodup) :
    sortMembers m = sortMembers n := by
  have hsorted (l : List (String × Json)) : (sortMembers l).Pairwise fun a b => a.1 ≤ b.1 :=
    List.pairwise_mergeSort' (Order.Preimage Prod.fst (· ≤ ·)) l
  have hperm : (sortMembers m).Perm (sortMembers n) :=
    (sortMembers_perm m).trans (h.trans (sortMembers_perm n).symm)
  -- Two members with the same key are the same member.
  refine hperm.eq_of_pairwise (fun a b ha hb hab hba => ?_) (hsorted m) (hsorted n)
  have hma : a ∈ m := (sortMembers_perm m).mem_iff.mp ha
  have hmb : b ∈ m := h.mem_iff.mpr ((sortMembers_perm n).mem_iff.mp hb)
  exact List.inj_on_of_nodup_map hkeys hma hmb (le_antisymm hab hba)

mutual

/-- Documents that are the same up to order are sorted to one document. -/
theorem sortKeys_eq_of_same {v w : Json} (h : Same v w) (hv : isProper v = true) : sortKeys v = sortKeys w := by
  match h with
  | .null | .bool _ | .int _ | .float _ | .str _ => rfl
  | .arr hitems => rw [sortKeys_arr, sortKeys_arr, map_sortKeys_of_same hitems ((isProper_arr _).mp hv)]
  | .obj (m := m) horder hmembers =>
    have hm := (isProper_obj m).mp hv
    have hvalues := map_sortMember_of_same hmembers fun p hp => hm.2 p (horder.mem_iff.mpr hp)
    have hsorted := sortMembers_eq_of_perm (horder.map sortMember) (by rw [map_fst_sortMember]; exact hm.1)
    rw [sortKeys_obj, sortKeys_obj, hsorted, hvalues]

theorem map_sortKeys_of_same {a b : List Json} (h : SameItems a b) (ha : ∀ x ∈ a, isProper x = true) :
    a.map sortKeys = b.map sortKeys := by
  match h with
  | .nil => rfl
  | .cons hx h =>
    have hproper := List.forall_mem_cons.mp ha
    rw [List.map_cons, List.map_cons, sortKeys_eq_of_same hx hproper.1, map_sortKeys_of_same h hproper.2]

theorem map_sortMember_of_same {m n : List (String × Json)} (h : SameMembers m n)
    (hm : ∀ p ∈ m, isProper p.2 = true) : m.map sortMember = n.map sortMember := by
  match h with
  | .nil => rfl
  | .cons hv h =>
    have hproper := List.forall_mem_cons.mp hm
    rw [List.map_cons, List.map_cons, sortMember, sortKeys_eq_of_same hv hproper.1,
      map_sortMember_of_same h hproper.2]
    rfl

end

theorem sameItems_of_map_eq {a b : List Json} (hsame : ∀ x ∈ a, ∀ y, sortKeys x = sortKeys y → Same x y)
    (h : a.map sortKeys = b.map sortKeys) : SameItems a b := by
  induction a generalizing b with
  | nil =>
    cases List.map_eq_nil_iff.mp h.symm
    exact .nil
  | cons x a ih =>
    obtain ⟨y, c, rfl, hxy, hrest⟩ := List.map_eq_cons_iff.mp h.symm
    have hparts := List.forall_mem_cons.mp hsame
    exact .cons (hparts.1 y hxy.symm) (ih hparts.2 hrest.symm)

theorem sameMembers_of_map_eq {m n : List (String × Json)}
    (hsame : ∀ p ∈ m, ∀ w, sortKeys p.2 = sortKeys w → Same p.2 w) (h : m.map sortMember = n.map sortMember) :
    SameMembers m n := by
  induction m generalizing n with
  | nil =>
    cases List.map_eq_nil_iff.mp h.symm
    exact .nil
  | cons p m ih =>
    obtain ⟨⟨key, w⟩, o, rfl, hpq, hrest⟩ := List.map_eq_cons_iff.mp h.symm
    obtain ⟨key', v⟩ := p
    obtain ⟨rfl, hvw⟩ := Prod.mk.inj hpq
    have hparts := List.forall_mem_cons.mp hsame
    exact .cons (hparts.1 w hvw.symm) (ih hparts.2 hrest.symm)

/-- A document that is sorted to the same one is the same up to order. -/
theorem same_of_sortKeys_eq (v : Json) : ∀ w, sortKeys v = sortKeys w → Same v w := by
  induction v using inductionOnParts with
  | null =>
    intro w h
    cases w <;> cases h
    exact .null
  | bool b =>
    intro w h
    cases w <;> cases h
    exact .bool b
  | int n =>
    intro w h
    cases w <;> cases h
    exact .int n
  | float x =>
    intro w h
    cases w <;> cases h
    exact .float x
  | str s =>
    intro w h
    cases w <;> cases h
    exact .str s
  | arr items ih =>
    intro w h
    cases w with
    | arr others =>
      rw [sortKeys_arr, sortKeys_arr] at h
      exact .arr (sameItems_of_map_eq ih (Json.arr.inj h))
    | _ => cases h
  | obj m ih =>
    intro w h
    cases w with
    | obj n =>
      rw [sortKeys_obj, sortKeys_obj] at h
      have hperm : (n.map sortMember).Perm (m.map sortMember) :=
        (sortMembers_perm _).symm.trans ((Json.obj.inj h) ▸ sortMembers_perm _)
      -- The order in which the other members stand is an order of these members.
      obtain ⟨m', hmap, horder⟩ : Relation.Comp (fun a l => a = List.map sortMember l) List.Perm
          (n.map sortMember) m := by
        rw [List.eq_map_comp_perm]
        exact hperm
      exact .obj horder.symm (sameMembers_of_map_eq (fun p hp => ih p (horder.mem_iff.mp hp)) hmap.symm)
    | _ => cases h

/-- Sorting the keys tells apart what differs in more than the order of members. -/
theorem sortKeys_eq_iff {v w : Json} (hv : isProper v = true) : sortKeys v = sortKeys w ↔ Same v w :=
  ⟨same_of_sortKeys_eq v w, fun h => sortKeys_eq_of_same h hv⟩

theorem isProper_sortKeys {v : Json} (h : isProper v = true) : isProper (sortKeys v) = true := by
  induction v using inductionOnParts with
  | arr items ih =>
    rw [sortKeys_arr, isProper_arr]
    intro x hx
    obtain ⟨y, hy, rfl⟩ := List.mem_map.mp hx
    exact ih y hy ((isProper_arr items).mp h y hy)
  | obj m ih =>
    have hm := (isProper_obj m).mp h
    rw [sortKeys_obj, isProper_obj]
    constructor
    · rw [((sortMembers_perm _).map Prod.fst).nodup_iff, map_fst_sortMember]
      exact hm.1
    · intro p hp
      obtain ⟨q, hq, rfl⟩ := List.mem_map.mp ((sortMembers_perm _).mem_iff.mp hp)
      exact ih q hq (hm.2 q hq)
  | _ => exact h

/-! ## 3. The first character -/

/-- The kind of value that starts with a character. -/
def kindAt (c : Char) : String :=
  if c = 'n' then "NoneType"
  else if c = 't' ∨ c = 'f' then "bool"
  else if c = '"' then "str"
  else if c = '[' then "list"
  else if c = '\x7b' then "dict"
  else if c = '-' ∨ Text.isDigit c then "int"
  else ""

theorem kindAt_of_isDigit {c : Char} (h : Text.isDigit c = true) : kindAt c = "int" := by
  have hne (d : Char) (hd : Text.isDigit d = false) : c ≠ d := by
    rintro rfl
    rw [h] at hd
    cases hd
  unfold kindAt
  rw [if_neg (hne _ (by decide)), if_neg (not_or.mpr ⟨hne _ (by decide), hne _ (by decide)⟩),
    if_neg (hne _ (by decide)), if_neg (hne _ (by decide)), if_neg (hne _ (by decide)), if_pos (.inr h)]

/-- The first character of a numeral is a minus or a digit. -/
theorem exists_numeral_eq_cons (n : Int) : ∃ c r, (toString n).toList = c :: r ∧ kindAt c = "int" := by
  rw [Integer.toList_toString]
  by_cases h : 0 ≤ n
  · rw [if_pos h]
    obtain ⟨c, r, hcons⟩ := List.exists_cons_of_ne_nil (Nat.toDigits_ne_nil (b := 10) (n := n.natAbs))
    have hc : c ∈ Nat.toDigits 10 n.natAbs := hcons ▸ List.mem_cons_self
    exact ⟨c, r, hcons, kindAt_of_isDigit (Integer.isDigit_of_mem_toDigits hc)⟩
  · rw [if_neg h]
    exact ⟨'-', _, rfl, by decide⟩

/-- The first character of a compact text shows the kind of the value. -/
theorem exists_compact_eq_cons {v : Json} (h : isProper v = true) :
    ∃ c r, compact v = c :: r ∧ kindAt c = v.kindName := by
  cases v with
  | null => exact ⟨'n', _, rfl, by decide⟩
  | bool b =>
    cases b
    · exact ⟨'f', _, rfl, by decide⟩
    · exact ⟨'t', _, rfl, by decide⟩
  | int n => exact exists_numeral_eq_cons n
  | float => cases h
  | str s => exact ⟨'"', _, rfl, rfl⟩
  | arr items => exact ⟨'[', _, rfl, rfl⟩
  | obj m => exact ⟨'\x7b', _, rfl, rfl⟩

/-- No value starts with a character that shows no kind. -/
theorem exists_compact_eq_cons_ne {v : Json} (h : isProper v = true) {stop : Char} (hstop : kindAt stop = "") :
    ∃ c r, compact v = c :: r ∧ c ≠ stop := by
  obtain ⟨c, r, hc, hkind⟩ := exists_compact_eq_cons h
  refine ⟨c, r, hc, ?_⟩
  rintro rfl
  rw [hstop] at hkind
  cases v <;> simp [kindName] at hkind

/-- Compact texts that go on alike are of values of one kind. -/
theorem kindName_eq_of_compact_append {v w : Json} (hv : isProper v = true) (hw : isProper w = true) {r s : List Char}
    (h : compact v ++ r = compact w ++ s) : v.kindName = w.kindName := by
  obtain ⟨c, v', hc, hkind⟩ := exists_compact_eq_cons hv
  obtain ⟨d, w', hd, hkind'⟩ := exists_compact_eq_cons hw
  rw [hc, hd] at h
  rw [← hkind, ← hkind', (List.cons.inj h).1]

/-! ## 4. Numerals and separators -/

/-- No digit comes first, so a numeral in front of it ends there. -/
def EndsNumeral (r : List Char) : Prop := ∀ c ∈ r.head?, Text.isDigit c = false

theorem endsNumeral_nil : EndsNumeral [] := fun _ hc => nomatch hc

theorem endsNumeral_cons {c : Char} (h : Text.isDigit c = false) (r : List Char) : EndsNumeral (c :: r) := by
  rintro d hd
  cases hd
  exact h

theorem digits_append_inj {a b r s : List Char} (ha : ∀ c ∈ a, Text.isDigit c = true)
    (hb : ∀ c ∈ b, Text.isDigit c = true) (hr : EndsNumeral r) (hs : EndsNumeral s) (h : a ++ r = b ++ s) :
    a = b ∧ r = s := by
  induction a generalizing b with
  | nil =>
    cases b with
    | nil => exact ⟨rfl, h⟩
    | cons d b =>
      rw [List.nil_append] at h
      rw [h] at hr
      exact absurd (hb d List.mem_cons_self) (Bool.eq_false_iff.mp (hr d rfl))
  | cons c a ih =>
    cases b with
    | nil =>
      rw [List.nil_append] at h
      rw [← h] at hs
      exact absurd (ha c List.mem_cons_self) (Bool.eq_false_iff.mp (hs c rfl))
    | cons d b =>
      obtain ⟨rfl, htail⟩ := List.cons.inj h
      obtain ⟨rfl, hrest⟩ := ih (List.forall_mem_cons.mp ha).2 (List.forall_mem_cons.mp hb).2 htail
      exact ⟨rfl, hrest⟩

/-- A numeral shows where it ends, in front of anything but a digit. -/
theorem numeral_append_inj {n m : Int} {r s : List Char} (hr : EndsNumeral r) (hs : EndsNumeral s)
    (h : (toString n).toList ++ r = (toString m).toList ++ s) : n = m ∧ r = s := by
  have hdigits (k : Nat) : ∀ c ∈ Nat.toDigits 10 k, Text.isDigit c = true := fun _ => Integer.isDigit_of_mem_toDigits
  have hminus (k : Nat) (a b : List Char) : Nat.toDigits 10 k ++ a ≠ '-' :: b := by
    intro heq
    obtain ⟨c, t, hcons⟩ := List.exists_cons_of_ne_nil (Nat.toDigits_ne_nil (b := 10) (n := k))
    rw [hcons] at heq
    have hc := hdigits k c (hcons ▸ List.mem_cons_self)
    rw [(List.cons.inj heq).1] at hc
    cases hc
  have habs {a b : List Char} (ha : EndsNumeral a) (hb : EndsNumeral b)
      (heq : Nat.toDigits 10 n.natAbs ++ a = Nat.toDigits 10 m.natAbs ++ b) : n.natAbs = m.natAbs ∧ a = b := by
    obtain ⟨hnumber, hrest⟩ := digits_append_inj (hdigits _) (hdigits _) ha hb heq
    have hread := congrArg (fun ds => Nat.ofDigitChars 10 ds 0) hnumber
    simp only [Nat.ofDigitChars_ten_toDigits] at hread
    exact ⟨hread, hrest⟩
  rw [Integer.toList_toString, Integer.toList_toString] at h
  by_cases hn : 0 ≤ n
  · by_cases hm : 0 ≤ m
    · rw [if_pos hn, if_pos hm] at h
      obtain ⟨hnumber, hrest⟩ := habs hr hs h
      exact ⟨by omega, hrest⟩
    · rw [if_pos hn, if_neg hm] at h
      exact absurd h (hminus _ _ _)
  · by_cases hm : 0 ≤ m
    · rw [if_neg hn, if_pos hm] at h
      exact absurd h.symm (hminus _ _ _)
    · rw [if_neg hn, if_neg hm] at h
      obtain ⟨hnumber, hrest⟩ := habs hr hs (List.cons.inj h).2
      exact ⟨by omega, hrest⟩

theorem numeral_inj {n m : Int} (h : toString n = toString m) : n = m :=
  (numeral_append_inj endsNumeral_nil endsNumeral_nil (congrArg (·.toList ++ []) h)).1

/-- Texts with commas between them. -/
def separated {α : Type} (write : α → List Char) : List α → List Char
  | [] => []
  | [x] => write x
  | x :: r => write x ++ ',' :: separated write r

section

variable {α : Type} {write : α → List Char} {stop : Char}

theorem separated_cons_cons_append (x y : α) (l : List α) (t : List Char) :
    separated write (x :: y :: l) ++ t = write x ++ ',' :: (separated write (y :: l) ++ t) := by
  rw [separated, List.append_assoc, List.cons_append]
  exact List.cons_ne_nil y l

theorem separated_append_ne {x : α} (hx : ∃ c r, write x = c :: r ∧ c ≠ stop) (l : List α) (t u : List Char) :
    separated write (x :: l) ++ t ≠ stop :: u := by
  intro h
  obtain ⟨c, r, hwrite, hne⟩ := hx
  cases l with
  | nil =>
    rw [separated, hwrite] at h
    exact hne (List.cons.inj h).1
  | cons y l =>
    rw [separated_cons_cons_append, hwrite] at h
    exact hne (List.cons.inj h).1

/-- A list of texts between commas shows where it ends when each text does. -/
theorem separated_append_inj (hcomma : stop ≠ ',') (hstop : Text.isDigit stop = false) {a b : List α}
    (hfirst : ∀ x ∈ a ++ b, ∃ c r, write x = c :: r ∧ c ≠ stop)
    (hinj : ∀ x ∈ a, ∀ y ∈ b, ∀ r s, EndsNumeral r → EndsNumeral s → write x ++ r = write y ++ s → x = y ∧ r = s)
    {r s : List Char} (h : separated write a ++ stop :: r = separated write b ++ stop :: s) : a = b ∧ r = s := by
  induction a generalizing b with
  | nil =>
    cases b with
    | nil => exact ⟨rfl, (List.cons.inj h).2⟩
    | cons y b => exact absurd h.symm (separated_append_ne (hfirst y (by simp)) b _ _)
  | cons x a ih =>
    cases b with
    | nil => exact absurd h (separated_append_ne (hfirst x (by simp)) a _ _)
    | cons y b =>
      have hxy := hinj x (by simp) y (by simp)
      -- Behind the two texts stands the end or a comma, and only like stands against like.
      have hends (t : List Char) : EndsNumeral (stop :: t) := endsNumeral_cons hstop t
      have hgoes (t : List Char) : EndsNumeral (',' :: t) := endsNumeral_cons (by decide) t
      cases a with
      | nil =>
        cases b with
        | nil =>
          obtain ⟨rfl, hrest⟩ := hxy _ _ (hends r) (hends s) h
          exact ⟨rfl, (List.cons.inj hrest).2⟩
        | cons y' b =>
          rw [separated_cons_cons_append] at h
          exact absurd (List.cons.inj (hxy _ _ (hends _) (hgoes _) h).2).1 hcomma
      | cons x' a =>
        cases b with
        | nil =>
          rw [separated_cons_cons_append] at h
          exact absurd (List.cons.inj (hxy _ _ (hgoes _) (hends _) h).2).1.symm hcomma
        | cons y' b =>
          rw [separated_cons_cons_append, separated_cons_cons_append] at h
          obtain ⟨rfl, hrest⟩ := hxy _ _ (hgoes _) (hgoes _) h
          have hparts : ∀ z ∈ (x' :: a) ++ (y' :: b), ∃ c r, write z = c :: r ∧ c ≠ stop := by
            intro z hz
            apply hfirst z
            simp only [List.cons_append, List.mem_cons, List.mem_append] at hz ⊢
            tauto
          obtain ⟨hsame, hend⟩ := ih hparts
            (fun z hz z' hz' => hinj z (List.mem_cons_of_mem x hz) z' (List.mem_cons_of_mem x hz'))
            (List.cons.inj hrest).2
          exact ⟨congrArg (x :: ·) hsame, hend⟩

end

/-! ## 5. Compact texts -/

/-- A member as text. -/
def writeMember (p : String × Json) : List Char := writeString p.1 ++ ':' :: compact p.2

theorem compactItems_eq (items : List Json) : compactItems items = separated compact items := by
  induction items with
  | nil => rfl
  | cons x r ih =>
    cases r with
    | nil => rfl
    | cons y r =>
      rw [compactItems, separated, ih]
      · exact List.cons_ne_nil y r
      · exact List.cons_ne_nil y r

theorem compactMembers_eq (m : List (String × Json)) : compactMembers m = separated writeMember m := by
  induction m with
  | nil => rfl
  | cons p r ih =>
    cases r with
    | nil => rfl
    | cons q r =>
      obtain ⟨k, v⟩ := p
      rw [compactMembers, separated, ih, writeMember, List.append_assoc, List.cons_append]
      · exact List.cons_ne_nil q r
      · exact List.cons_ne_nil q r

theorem compact_arr_append (items : List Json) (r : List Char) :
    compact (.arr items) ++ r = '[' :: (separated compact items ++ ']' :: r) := by
  rw [compact, compactItems_eq, List.append_assoc]
  rfl

theorem compact_obj_append (m : List (String × Json)) (r : List Char) :
    compact (.obj m) ++ r = '\x7b' :: (separated writeMember m ++ '\x7d' :: r) := by
  rw [compact, compactMembers_eq, List.append_assoc]
  rfl

/-- A member shows where it ends when its value does. -/
theorem writeMember_append_inj {p q : String × Json} {r s : List Char}
    (hvalue : compact p.2 ++ r = compact q.2 ++ s → p.2 = q.2 ∧ r = s) (h : writeMember p ++ r = writeMember q ++ s) :
    p = q ∧ r = s := by
  rw [writeMember, writeMember, List.append_assoc, List.append_assoc] at h
  obtain ⟨hkey, hrest⟩ := writeString_append_inj h
  obtain ⟨hsame, hend⟩ := hvalue (List.cons.inj hrest).2
  exact ⟨Prod.ext hkey hsame, hend⟩

/-- A compact text shows where it ends, in front of anything but a digit. -/
theorem compact_append_inj {v w : Json} (hv : isProper v = true) (hw : isProper w = true) {r s : List Char}
    (hr : EndsNumeral r) (hs : EndsNumeral s) (h : compact v ++ r = compact w ++ s) : v = w ∧ r = s := by
  have hkind := kindName_eq_of_compact_append hv hw h
  induction v using inductionOnParts generalizing w r s with
  | null =>
    cases w with
    | null => exact ⟨rfl, List.append_cancel_left h⟩
    | _ => exact absurd hkind (by simp [kindName])
  | bool b =>
    cases w with
    | bool c =>
      cases b <;> cases c
      · exact ⟨rfl, List.append_cancel_left h⟩
      · exact absurd (List.cons.inj h).1 (by decide)
      · exact absurd (List.cons.inj h).1 (by decide)
      · exact ⟨rfl, List.append_cancel_left h⟩
    | _ => exact absurd hkind (by simp [kindName])
  | int n =>
    cases w with
    | int m =>
      obtain ⟨rfl, hrest⟩ := numeral_append_inj hr hs h
      exact ⟨rfl, hrest⟩
    | _ => exact absurd hkind (by simp [kindName])
  | float => cases hv
  | str a =>
    cases w with
    | str b =>
      obtain ⟨rfl, hrest⟩ := writeString_append_inj h
      exact ⟨rfl, hrest⟩
    | _ => exact absurd hkind (by simp [kindName])
  | arr items ih =>
    cases w with
    | arr others =>
      rw [isProper_arr] at hv hw
      rw [compact_arr_append, compact_arr_append] at h
      obtain ⟨rfl, hrest⟩ := separated_append_inj (by decide) (by decide)
        (fun x hx => exists_compact_eq_cons_ne (List.forall_mem_append.mpr ⟨hv, hw⟩ x hx) (by decide))
        (fun x hx y hy a b ha hb hxy =>
          ih x hx (hv x hx) (hw y hy) ha hb hxy (kindName_eq_of_compact_append (hv x hx) (hw y hy) hxy))
        (List.cons.inj h).2
      exact ⟨rfl, hrest⟩
    | _ => exact absurd hkind (by simp [kindName])
  | obj m ih =>
    cases w with
    | obj n =>
      rw [isProper_obj] at hv hw
      rw [compact_obj_append, compact_obj_append] at h
      obtain ⟨rfl, hrest⟩ := separated_append_inj (by decide) (by decide)
        (fun p _ => ⟨'"', _, rfl, by decide⟩)
        (fun p hp q hq a b ha hb hpq => writeMember_append_inj (fun heq => ih p hp (hv.2 p hp) (hw.2 q hq) ha hb heq
          (kindName_eq_of_compact_append (hv.2 p hp) (hw.2 q hq) heq)) hpq)
        (List.cons.inj h).2
      exact ⟨rfl, hrest⟩
    | _ => exact absurd hkind (by simp [kindName])

/-! ## 6. Canonical texts -/

/-- Canonical texts have equal bytes exactly if the documents are the same up to the order of members. -/
theorem encode_canonical_eq_iff {v w : Json} (hv : isProper v = true) (hw : isProper w = true) :
    Text.Utf8.encode (canonical v) = Text.Utf8.encode (canonical w) ↔ Same v w := by
  rw [← sortKeys_eq_iff hv]
  constructor
  · intro h
    have htext : canonical v = canonical w := by
      have hdecode := congrArg Text.Utf8.decode h
      rw [Text.Utf8.decode_encode, Text.Utf8.decode_encode] at hdecode
      exact Except.ok.inj hdecode
    exact (compact_append_inj (isProper_sortKeys hv) (isProper_sortKeys hw) endsNumeral_nil endsNumeral_nil
      (congrArg (· ++ []) htext)).1
  · intro h
    rw [canonical, h, canonical]

end ContractShell.Json
