import ContractShell.Json.Reader
import Mathlib.Data.List.Nodup

/-!
What the reader of documents gives: in every object of a document that was read a key occurs once.

## Main statements

* `read?_ofList`: a text of given characters is read as the value that they are.
* `keysOnce_of_read?`: the reader settles repeated keys, in every object of the document.
-/

namespace ContractShell.Json

/-- No object of a document has a key twice. -/
inductive KeysOnce : Json → Prop where
  | null : KeysOnce .null
  | bool (b : Bool) : KeysOnce (.bool b)
  | int (n : Int) : KeysOnce (.int n)
  | float (x : Binary64) : KeysOnce (.float x)
  | str (s : String) : KeysOnce (.str s)
  | arr {items : List Json} (hitems : ∀ v ∈ items, KeysOnce v) : KeysOnce (.arr items)
  | obj {m : List (String × Json)} (hkeys : (m.map Prod.fst).Nodup) (hvalues : ∀ p ∈ m, KeysOnce p.2) :
      KeysOnce (.obj m)

theorem keysOnce_arr (items : List Json) : KeysOnce (.arr items) ↔ ∀ v ∈ items, KeysOnce v :=
  ⟨fun | .arr h => h, .arr⟩

theorem keysOnce_obj (m : List (String × Json)) :
    KeysOnce (.obj m) ↔ (m.map Prod.fst).Nodup ∧ ∀ p ∈ m, KeysOnce p.2 :=
  ⟨fun | .obj hkeys hvalues => ⟨hkeys, hvalues⟩, fun h => .obj h.1 h.2⟩

theorem keysOnce_nil : KeysOnce (.arr []) := .arr nofun

theorem keysOnce_empty : KeysOnce (.obj []) := .obj List.nodup_nil nofun

/-! ## 1. Members -/

theorem mem_keys_set (key : String) (v : Json) (m : List (String × Json)) (k : String) :
    k ∈ (set key v m).map Prod.fst ↔ k = key ∨ k ∈ m.map Prod.fst := by
  induction m with
  | nil => simp [set]
  | cons p m ih =>
    by_cases hp : p.1 = key
    · simp [set, hp]
    · simp only [set, hp, if_false, List.map_cons, List.mem_cons, ih]
      tauto

/-- A member that is set is either the new one or was there. -/
theorem snd_of_mem_set {key : String} {v : Json} {m : List (String × Json)} {p : String × Json} (hp : p ∈ set key v m) :
    p.2 = v ∨ p ∈ m := by
  induction m with
  | nil =>
    cases List.mem_singleton.mp hp
    exact .inl rfl
  | cons q m ih =>
    rw [set] at hp
    split at hp
    · rcases List.mem_cons.mp hp with rfl | hp
      · exact .inl rfl
      · exact .inr (List.mem_cons_of_mem q hp)
    · rcases List.mem_cons.mp hp with rfl | hp
      · exact .inr List.mem_cons_self
      · exact (ih hp).imp_right (List.mem_cons_of_mem q)

theorem find?_cons (key : String) (p : String × Json) (m : List (String × Json)) :
    find? key (p :: m) = if p.1 = key then some p.2 else find? key m := by
  unfold find?
  by_cases hp : p.1 = key <;> simp [hp]

theorem find?_set_self (key : String) (v : Json) (m : List (String × Json)) : find? key (set key v m) = some v := by
  induction m with
  | nil => rw [set, find?_cons, if_pos rfl]
  | cons p m ih =>
    rw [set]
    by_cases hp : p.1 = key
    · rw [if_pos hp, find?_cons, if_pos hp]
    · rw [if_neg hp, find?_cons, if_neg hp, ih]

theorem find?_set_of_ne {key other : String} (h : other ≠ key) (v : Json) (m : List (String × Json)) :
    find? other (set key v m) = find? other m := by
  induction m with
  | nil => rw [set, find?_cons, if_neg h.symm]
  | cons p m ih =>
    rw [set]
    by_cases hp : p.1 = key
    · have hother : p.1 ≠ other := hp ▸ h.symm
      rw [if_pos hp, find?_cons, find?_cons, if_neg hother, if_neg hother]
    · rw [if_neg hp, find?_cons, find?_cons, ih]

theorem nodup_keys_set {key : String} {v : Json} {m : List (String × Json)} (h : (m.map Prod.fst).Nodup) :
    ((set key v m).map Prod.fst).Nodup := by
  induction m with
  | nil => simp [set]
  | cons p m ih =>
    rw [List.map_cons, List.nodup_cons] at h
    rw [set]
    by_cases hp : p.1 = key
    · rw [if_pos hp, List.map_cons, List.nodup_cons]
      exact h
    · rw [if_neg hp, List.map_cons, List.nodup_cons, mem_keys_set, not_or]
      exact ⟨⟨hp, h.1⟩, ih h.2⟩

theorem KeysOnce.set {m : List (String × Json)} (h : KeysOnce (.obj m)) {v : Json} (hv : KeysOnce v) (key : String) :
    KeysOnce (.obj (Json.set key v m)) := by
  rw [keysOnce_obj] at h ⊢
  refine ⟨nodup_keys_set h.1, fun p hp => ?_⟩
  rcases snd_of_mem_set hp with heq | hp
  · exact heq ▸ hv
  · exact h.2 p hp

theorem KeysOnce.member? {v w : Json} (h : KeysOnce v) {key : String} (hw : v.member? key = some w) : KeysOnce w := by
  cases v with
  | obj m =>
    obtain ⟨p, hp, rfl⟩ := Option.map_eq_some_iff.mp hw
    exact ((keysOnce_obj m).mp h).2 p (List.mem_of_find?_eq_some hp)
  | _ => cases hw

/-! ## 2. The reader -/

theorem keysOnce_of_readUnsigned? {negative : Bool} {s r : List Char} {v : Json}
    (h : readUnsigned? negative s = some (v, r)) : KeysOnce v := by
  unfold readUnsigned? at h
  simp only at h
  split at h
  · cases h
  · split at h
    · split at h
      · cases h
      · cases h
        exact .int _
    · cases h
      exact .float _

theorem keysOnce_of_readNumber? {s r : List Char} {v : Json} (h : readNumber? s = some (v, r)) : KeysOnce v := by
  unfold readNumber? at h
  split at h
  · split at h
    · cases h
      exact .float _
    · exact keysOnce_of_readUnsigned? h
  · exact keysOnce_of_readUnsigned? h

/-- What the readers give with some fuel has each key once, if what was read before has. -/
structure ReadersKeep (fuel : Nat) : Prop where
  value : ∀ {s r v}, readValue? fuel s = some (v, r) → KeysOnce v
  items : ∀ {done s items r}, KeysOnce (.arr done) → readItems? fuel done s = some (items, r) → KeysOnce (.arr items)
  members : ∀ {done s m r}, KeysOnce (.obj done) → readMembers? fuel done s = some (m, r) → KeysOnce (.obj m)

section

variable {fuel : Nat} {s r : List Char}

theorem ReadersKeep.next_value (h : ReadersKeep fuel) {v : Json} (hread : readValue? (fuel + 1) s = some (v, r)) :
    KeysOnce v := by
  unfold readValue? at hread
  split at hread
  · obtain ⟨t, -, ht⟩ := Option.map_eq_some_iff.mp hread
    cases ht
    exact .str _
  · split at hread
    · cases hread
      exact keysOnce_nil
    · obtain ⟨items, hitems, heq⟩ := Option.map_eq_some_iff.mp hread
      cases heq
      exact h.items keysOnce_nil hitems
  · split at hread
    · cases hread
      exact keysOnce_empty
    · obtain ⟨m, hmembers, heq⟩ := Option.map_eq_some_iff.mp hread
      cases heq
      exact h.members keysOnce_empty hmembers
  · split at hread
    · cases hread
      exact .null
    · cases hread
      exact .bool true
    · cases hread
      exact .bool false
    · split at hread
      · cases hread
        exact .float _
      · cases hread
        exact .float _
      · exact keysOnce_of_readNumber? hread

theorem ReadersKeep.next_items (h : ReadersKeep fuel) {done items : List Json} (hdone : KeysOnce (.arr done))
    (hread : readItems? (fuel + 1) done s = some (items, r)) : KeysOnce (.arr items) := by
  unfold readItems? at hread
  split at hread
  · cases hread
  · rename_i v t hv
    have hcons : ∀ x ∈ v :: done, KeysOnce x := List.forall_mem_cons.mpr ⟨h.value hv, (keysOnce_arr done).mp hdone⟩
    split at hread
    · exact h.items (.arr hcons) hread
    · cases hread
      exact .arr fun x hx => hcons x (List.mem_reverse.mp hx)
    · cases hread

theorem ReadersKeep.next_members (h : ReadersKeep fuel) {done m : List (String × Json)} (hdone : KeysOnce (.obj done))
    (hread : readMembers? (fuel + 1) done s = some (m, r)) : KeysOnce (.obj m) := by
  unfold readMembers? at hread
  split at hread
  · split at hread
    · cases hread
    · rename_i key _ _
      split at hread
      · split at hread
        · cases hread
        · rename_i v w hv
          have hset : KeysOnce (.obj (Json.set key v done)) := hdone.set (h.value hv) key
          split at hread
          · exact h.members hset hread
          · cases hread
            exact hset
          · cases hread
      · cases hread
  · cases hread

end

theorem readersKeep (fuel : Nat) : ReadersKeep fuel := by
  -- The readers call each other with less fuel, so the induction is on the fuel for all three.
  induction fuel with
  | zero =>
    refine ⟨fun h => ?_, fun _ h => ?_, fun _ h => ?_⟩
    · rw [readValue?] at h
      cases h
    · rw [readItems?] at h
      cases h
    · rw [readMembers?] at h
      cases h
  | succ fuel ih => exact ⟨ih.next_value, ih.next_items, ih.next_members⟩

/-- A text of given characters is read as the value that they are. -/
theorem read?_ofList {l : List Char} {v : Json}
    (h : readValue? (2 * (skipBlank l).length + 2) (skipBlank l) = some (v, [])) : read? (String.ofList l) = some v := by
  unfold read?
  rw [String.toList_ofList]
  simp only [h]
  rfl

/-- The reader settles repeated keys, in every object of the document. -/
theorem keysOnce_of_read? {text : String} {v : Json} (h : read? text = some v) : KeysOnce v := by
  unfold read? at h
  simp only at h
  split at h
  · rename_i hread
    split at h
    · cases h
      exact (readersKeep _).value hread
    · cases h
  · cases h

end ContractShell.Json
