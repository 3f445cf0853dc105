/-!
Steps that can fail: what follows when one comes after another.

## Main statements

* `steps_bind_apply`: of two steps over a state, the second is taken when the first succeeds.
* `of_bind_eq_ok`: when two steps succeed, each of them does.
* `of_foldlM`, `of_foldlM_upTo`: what every step keeps, or brings about for the items so far, holds at the end.
* `foldlM_eq_error_iff`: steps fail with the fault of the first one that fails.
-/

namespace ContractShell

/-- Of two steps over a state, the second is taken in the state that the first leaves, if that one succeeds. -/
theorem steps_bind_apply {ε σ α β : Type} (x : ExceptT ε (StateM σ) α) (f : α → ExceptT ε (StateM σ) β) (s : σ) :
    (x >>= f) s = match x s with
      | (.ok a, s') => f a s'
      | (.error e, s') => (.error e, s') := by
  simp only [bind, ExceptT.bind, ExceptT.mk, StateT.bind]
  cases x s with
  | mk r s' => cases r <;> rfl

/-- What comes of two steps, if it is known what the first comes to and which state it leaves. -/
theorem steps_bind_fst {ε σ α β : Type} {x : ExceptT ε (StateM σ) α} {s s' : σ} {r : Except ε α} (h : x s = (r, s'))
    (f : α → ExceptT ε (StateM σ) β) : ((x >>= f) s).1 = r >>= fun a => (f a s').1 := by
  rw [steps_bind_apply, h]
  cases r <;> rfl

/-- When two steps succeed, each of them does. -/
theorem of_bind_eq_ok {ε α β : Type} {x : Except ε α} {f : α → Except ε β} {b : β} (h : x >>= f = .ok b) :
    ∃ a, x = .ok a ∧ f a = .ok b := by
  cases x with
  | error e => cases h
  | ok a => exact ⟨a, rfl, h⟩

theorem isOk_iff {ε α : Type} {x : Except ε α} : x.isOk = true ↔ ∃ a, x = .ok a := by
  cases x with
  | error e => exact ⟨nofun, nofun⟩
  | ok a => exact ⟨fun _ => ⟨a, rfl⟩, fun _ => rfl⟩

/-- What fails is just what does not succeed. -/
theorem exists_error_iff {ε α : Type} {x : Except ε α} : (∃ e, x = .error e) ↔ ∀ a, x ≠ .ok a := by
  cases x with
  | error e => exact ⟨fun _ => nofun, fun _ => ⟨e, rfl⟩⟩
  | ok a => exact ⟨nofun, fun h => absurd rfl (h a)⟩

theorem of_map_eq_ok {ε α β : Type} {x : Except ε α} {f : α → β} {b : β} (h : x.map f = .ok b) :
    ∃ a, x = .ok a ∧ f a = b := by
  cases x with
  | error e => cases h
  | ok a =>
    cases h
    exact ⟨a, rfl, rfl⟩

/-- What each step brings about for the items up to its own holds at the end for all of them. -/
theorem of_foldlM_upTo {ε α β : Type} {f : β → α → Except ε β} (P : List α → β → Prop)
    (hstep : ∀ before done a done', P before done → f done a = .ok done' → P (before ++ [a]) done') {items : List α}
    {start result : β} (hstart : P [] start) (h : items.foldlM f start = .ok result) : P items result := by
  -- The induction is on the items still to come; those before are gathered on the left.
  suffices hfrom : ∀ before done, P before done → items.foldlM f done = .ok result → P (before ++ items) result from
    hfrom [] start hstart h
  clear hstart h
  induction items with
  | nil =>
    intro before done hdone h
    cases h
    rw [List.append_nil]
    exact hdone
  | cons a items ih =>
    intro before done hdone h
    rw [List.foldlM_cons] at h
    obtain ⟨done', hf, hrest⟩ := of_bind_eq_ok h
    have hall := ih (before ++ [a]) done' (hstep before done a done' hdone hf) hrest
    rwa [List.append_assoc, List.singleton_append] at hall

/-- What every step keeps is kept by all of them together. -/
theorem of_foldlM {ε α β : Type} {f : β → α → Except ε β} (P : β → Prop)
    (hstep : ∀ done a done', P done → f done a = .ok done' → P done') {items : List α} {done result : β} (hdone : P done)
    (h : items.foldlM f done = .ok result) : P result :=
  of_foldlM_upTo (fun _ => P) (fun _ => hstep) hdone h

/-- Steps fail with the fault of the first step that fails. -/
theorem foldlM_eq_error_iff {ε α β : Type} {f : β → α → Except ε β} {items : List α} {start : β} {e : ε} :
    items.foldlM f start = .error e ↔ ∃ before a after done, items = before ++ a :: after ∧
      before.foldlM f start = .ok done ∧ f done a = .error e := by
  constructor
  · intro h
    induction items generalizing start with
    | nil => cases h
    | cons a items ih =>
      rw [List.foldlM_cons] at h
      cases hstep : f start a with
      | error e' =>
        rw [hstep] at h
        cases h
        exact ⟨[], a, items, start, rfl, rfl, hstep⟩
      | ok next =>
        rw [hstep] at h
        obtain ⟨before, b, after, done, rfl, hbefore, hb⟩ := ih h
        refine ⟨a :: before, b, after, done, rfl, ?_, hb⟩
        rw [List.foldlM_cons, hstep]
        exact hbefore
  · rintro ⟨before, a, after, done, rfl, hbefore, ha⟩
    rw [List.foldlM_append, hbefore]
    change (a :: after).foldlM f done = .error e
    rw [List.foldlM_cons, ha]
    rfl

end ContractShell
