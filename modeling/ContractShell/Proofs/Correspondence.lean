import Mathlib.Data.List.Forall2
import Mathlib.Data.List.Nodup

/-!
Lists whose items correspond one to one, and lists whose items are told apart by a name.

## Main statements

* `forall₂_mem_left`, `forall₂_mem_right`: an item of one list has one of the other that it corresponds to.
* `forall₂_of_mapM`: the results of a map that can fail correspond to what was mapped.
* `exists_mapM`: a map that succeeds on each item succeeds.
* `find?_eq_some_of_nodup`: an item is found by its name when no other one has the name.
-/

namespace ContractShell

theorem forall₂_mem_left {α β : Type} {R : α → β → Prop} {as : List α} {bs : List β} (h : List.Forall₂ R as bs) {b : β}
    (hb : b ∈ bs) : ∃ a ∈ as, R a b := by
  induction h with
  | nil => cases hb
  | cons hab _ ih =>
    rcases List.mem_cons.mp hb with rfl | hb
    · exact ⟨_, List.mem_cons_self, hab⟩
    · obtain ⟨a, ha, hr⟩ := ih hb
      exact ⟨a, List.mem_cons_of_mem _ ha, hr⟩

theorem forall₂_mem_right {α β : Type} {R : α → β → Prop} {as : List α} {bs : List β} (h : List.Forall₂ R as bs)
    {a : α} (ha : a ∈ as) : ∃ b ∈ bs, R a b := forall₂_mem_left h.flip ha

/-- Items that can each be answered have a list of answers. -/
theorem exists_forall₂ {α β : Type} {R : α → β → Prop} {as : List α} (h : ∀ a ∈ as, ∃ b, R a b) :
    ∃ bs, List.Forall₂ R as bs := by
  induction as with
  | nil => exact ⟨[], .nil⟩
  | cons a as ih =>
    obtain ⟨b, hb⟩ := h a (by simp)
    obtain ⟨bs, hbs⟩ := ih fun x hx => h x (List.mem_cons_of_mem a hx)
    exact ⟨b :: bs, .cons hb hbs⟩

/-- What corresponding items agree on is the same for both lists. -/
theorem map_eq_of_forall₂ {α β γ : Type} {R : α → β → Prop} {f : α → γ} {g : β → γ}
    (hfg : ∀ a b, R a b → f a = g b) {as : List α} {bs : List β} (h : List.Forall₂ R as bs) :
    as.map f = bs.map g := by
  induction h with
  | nil => rfl
  | cons hab _ ih => rw [List.map_cons, List.map_cons, hfg _ _ hab, ih]

/-- The results of a map that can fail correspond to what was mapped. -/
theorem forall₂_of_mapM {α β : Type} {f : α → Option β} {as : List α} {bs : List β} (h : as.mapM f = some bs) :
    List.Forall₂ (fun a b => f a = some b) as bs := by
  induction as generalizing bs with
  | nil =>
    cases h
    exact .nil
  | cons a as ih =>
    rw [List.mapM_cons] at h
    simp only [Option.bind_eq_bind, Option.bind_eq_some_iff] at h
    obtain ⟨b, hb, bs', hbs, hcons⟩ := h
    cases hcons
    exact .cons hb (ih hbs)

/-- What corresponding items agree on, and may fail in the same way, is the same for both lists. -/
theorem mapM_eq_of_forall₂ {α β γ : Type} {R : α → β → Prop} {f : α → Option γ} {g : β → Option γ}
    (hfg : ∀ a b, R a b → f a = g b) {as : List α} {bs : List β} (h : List.Forall₂ R as bs) :
    as.mapM f = bs.mapM g := by
  induction h with
  | nil => rfl
  | cons hab _ ih => rw [List.mapM_cons, List.mapM_cons, hfg _ _ hab, ih]

/-- A map that succeeds on each item gives all results. -/
theorem mapM_eq_some_map {α β : Type} {f : α → Option β} {g : α → β} {as : List α} (h : ∀ a ∈ as, f a = some (g a)) :
    as.mapM f = some (as.map g) := by
  induction as with
  | nil => rfl
  | cons a as ih =>
    rw [List.mapM_cons, h a List.mem_cons_self, ih fun x hx => h x (List.mem_cons_of_mem a hx)]
    rfl

/-- A map that succeeds on each item succeeds. -/
theorem exists_mapM {α β : Type} {f : α → Option β} {as : List α} (h : ∀ a ∈ as, ∃ b, f a = some b) :
    ∃ bs, as.mapM f = some bs := by
  obtain ⟨bs, hbs⟩ := exists_forall₂ h
  have hall : bs.mapM some = some (bs.map id) := mapM_eq_some_map fun _ _ => rfl
  exact ⟨bs.map id, (mapM_eq_of_forall₂ (fun _ _ hab => hab) hbs).trans hall⟩

/-- An item is found by its name when no other one has the name. -/
theorem find?_eq_some_of_nodup {α β : Type} [DecidableEq β] {name : α → β} {as : List α} (hnodup : (as.map name).Nodup)
    {a : α} (ha : a ∈ as) : as.find? (fun x => name x == name a) = some a := by
  cases hfound : as.find? (fun x => name x == name a) with
  | none =>
    have hself := List.find?_eq_none.mp hfound a ha
    rw [beq_self_eq_true] at hself
    exact absurd rfl hself
  | some b =>
    have hname : name b = name a := by simpa using List.find?_some hfound
    rw [List.inj_on_of_nodup_map hnodup (List.mem_of_find?_eq_some hfound) ha hname]

end ContractShell
