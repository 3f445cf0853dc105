import ContractShell.Bytes.Base64

/-!
Base64 text is read back as the bytes that it was written for, by the strict reader and by the lenient one, in both
alphabets.

## Main statements

* `decode_encode`: bytes are read back from their padded text.
* `decodeUrl_encodeUrl`: the same for the address-safe alphabet.
-/

namespace ContractShell.Base64

/-! ## 1. Digits -/

/-- What a digit is: it is read as its value, it is in ASCII, and it is not the padding. The digits of the address-safe
alphabet stand for those of the standard one. -/
theorem digit_spec {v : Nat} (h : v < 64) :
    value? (digit v) = some v ∧ digit v ≠ '=' ∧ (digit v).toNat < 128 ∧
      ofUrlDigit (urlDigit v) = digit v ∧ (urlDigit v).toNat < 128 := by
  have hall : ∀ v : Fin 64, value? (digit v.val) = some v.val ∧ digit v.val ≠ '=' ∧ (digit v.val).toNat < 128 ∧
      ofUrlDigit (urlDigit v.val) = digit v.val ∧ (urlDigit v.val).toNat < 128 := by
    decide +kernel
  exact hall ⟨v, h⟩

section

variable {strict : Bool} {v left digits : Nat} {r : List Char} {b : Bytes}

/-- A digit that gives no byte by itself starts a group. -/
theorem readFrom_first (h : v < 64) :
    readFrom strict ⟨0, left, 0, false, digits⟩ (digit v :: r) = readFrom strict ⟨1, v, 0, false, digits + 1⟩ r := by
  obtain ⟨hvalue, hpad, -⟩ := digit_spec h
  rw [readFrom, if_neg hpad, hvalue]
  simp [Cursor.take]

theorem readFrom_second (h : v < 64) :
    readFrom strict ⟨1, left, 0, false, digits⟩ (digit v :: r) =
      (readFrom strict ⟨2, v % 16, 0, false, digits + 1⟩ r).map (UInt8.ofNat (left * 4 + v / 16) :: ·) := by
  obtain ⟨hvalue, hpad, -⟩ := digit_spec h
  rw [readFrom, if_neg hpad, hvalue]
  simp [Cursor.take]

theorem readFrom_third (h : v < 64) :
    readFrom strict ⟨2, left, 0, false, digits⟩ (digit v :: r) =
      (readFrom strict ⟨3, v % 4, 0, false, digits + 1⟩ r).map (UInt8.ofNat (left * 16 + v / 4) :: ·) := by
  obtain ⟨hvalue, hpad, -⟩ := digit_spec h
  rw [readFrom, if_neg hpad, hvalue]
  simp [Cursor.take]

theorem readFrom_fourth (h : v < 64) :
    readFrom strict ⟨3, left, 0, false, digits⟩ (digit v :: r) =
      (readFrom strict ⟨0, 0, 0, false, digits + 1⟩ r).map (UInt8.ofNat (left * 64 + v) :: ·) := by
  obtain ⟨hvalue, hpad, -⟩ := digit_spec h
  rw [readFrom, if_neg hpad, hvalue]
  simp [Cursor.take]

end

theorem ofNat_eq {n : Nat} {x : UInt8} (h : n = x.toNat) : UInt8.ofNat n = x := by
  rw [h, UInt8.ofNat_toNat]

/-! ## 2. Texts -/

/-- The digits and the padding of bytes are read group by group. -/
theorem readFrom_encodeWith (strict : Bool) (b : Bytes) (left digits : Nat) :
    readFrom strict ⟨0, left, 0, false, digits⟩ (encodeWith digit b) = .ok b := by
  -- The induction goes from group to group; the cursor between two groups has nothing left over but its count.
  induction b using encodeWith.induct generalizing left digits with
  | case1 => rfl
  | case2 x =>
    have hx : x.toNat < 256 := x.toNat_lt
    rw [encodeWith, readFrom_first (by omega), readFrom_second (by omega)]
    rw [ofNat_eq (x := x) (by omega)]
    simp [readFrom, Except.map]
  | case3 x y =>
    have hx : x.toNat < 256 := x.toNat_lt
    have hy : y.toNat < 256 := y.toNat_lt
    rw [encodeWith, readFrom_first (by omega), readFrom_second (by omega), readFrom_third (by omega)]
    rw [ofNat_eq (x := x) (by omega), ofNat_eq (x := y) (by omega)]
    simp [readFrom, Except.map]
  | case4 x y z r ih =>
    have hx : x.toNat < 256 := x.toNat_lt
    have hy : y.toNat < 256 := y.toNat_lt
    have hz : z.toNat < 256 := z.toNat_lt
    rw [encodeWith, readFrom_first (by omega), readFrom_second (by omega), readFrom_third (by omega),
      readFrom_fourth (by omega), ih]
    rw [ofNat_eq (x := x) (by omega), ofNat_eq (x := y) (by omega), ofNat_eq (x := z) (by omega)]
    rfl

/-- The numbers that the digits of a text stand for. -/
def sextets : Bytes → List Nat
  | [] => []
  | [a] => [a.toNat / 4, a.toNat % 4 * 16]
  | [a, b] => [a.toNat / 4, a.toNat % 4 * 16 + b.toNat / 16, b.toNat % 16 * 4]
  | a :: b :: c :: r =>
    a.toNat / 4 :: (a.toNat % 4 * 16 + b.toNat / 16) :: (b.toNat % 16 * 4 + c.toNat / 64) :: c.toNat % 64 :: sextets r

theorem sextets_lt (b : Bytes) : ∀ v ∈ sextets b, v < 64 := by
  induction b using sextets.induct with
  | case1 => simp [sextets]
  | case2 x =>
    have hx : x.toNat < 256 := x.toNat_lt
    simp only [sextets, List.forall_mem_cons]
    exact ⟨by omega, by omega, by simp⟩
  | case3 x y =>
    have hx : x.toNat < 256 := x.toNat_lt
    have hy : y.toNat < 256 := y.toNat_lt
    simp only [sextets, List.forall_mem_cons]
    exact ⟨by omega, by omega, by omega, by simp⟩
  | case4 x y z r ih =>
    have hx : x.toNat < 256 := x.toNat_lt
    have hy : y.toNat < 256 := y.toNat_lt
    have hz : z.toNat < 256 := z.toNat_lt
    simp only [sextets, List.forall_mem_cons]
    exact ⟨by omega, by omega, by omega, by omega, ih⟩

/-- A text is digits and then padding. -/
theorem encodeWith_eq (d : Nat → Char) (b : Bytes) :
    encodeWith d b = (sextets b).map d ++ List.replicate ((3 - b.length % 3) % 3) '=' := by
  induction b using sextets.induct with
  | case1 | case2 | case3 => rfl
  | case4 x y z r ih =>
    have hlength : (x :: y :: z :: r).length % 3 = r.length % 3 := by
      simp only [List.length_cons]
      omega
    rw [hlength, encodeWith, sextets, ih]
    rfl

theorem forall_mem_encodeWith {P : Char → Prop} {d : Nat → Char} (hdigit : ∀ v < 64, P (d v)) (hpad : P '=') (b : Bytes) :
    ∀ c ∈ encodeWith d b, P c := by
  intro c hc
  rw [encodeWith_eq] at hc
  rcases List.mem_append.mp hc with hc | hc
  · obtain ⟨v, hv, rfl⟩ := List.mem_map.mp hc
    exact hdigit v (sextets_lt b v hv)
  · rw [List.eq_of_mem_replicate hc]
    exact hpad

theorem map_ofUrlDigit_encodeWith (b : Bytes) : (encodeWith urlDigit b).map ofUrlDigit = encodeWith digit b := by
  rw [encodeWith_eq, encodeWith_eq, List.map_append, List.map_map, List.map_replicate]
  congr 1
  exact List.map_congr_left fun v hv => (digit_spec (sextets_lt b v hv)).2.2.2.1

theorem any_foreign_eq_false {s : List Char} (h : ∀ c ∈ s, c.toNat < 128) : (s.any fun c => 128 ≤ c.toNat) = false := by
  rw [List.any_eq_false]
  intro c hc
  have := h c hc
  simp only [decide_eq_true_eq]
  omega

/-- Bytes are read back from their padded text. -/
theorem decode_encode (strict : Bool) (b : Bytes) : decode strict (encode b).toList = .ok b := by
  have hascii : ∀ c ∈ encodeWith digit b, c.toNat < 128 :=
    forall_mem_encodeWith (fun v hv => (digit_spec hv).2.2.1) (by decide) b
  have hhead : (encodeWith digit b).head? ≠ some '=' := by
    cases b with
    | nil => simp [encodeWith]
    | cons x r =>
      have hx : x.toNat < 256 := x.toNat_lt
      have hfirst : (encodeWith digit (x :: r)).head? = some (digit (x.toNat / 4)) := by
        rcases r with _ | ⟨y, _ | ⟨z, r⟩⟩ <;> rfl
      rw [hfirst, ne_eq, Option.some.injEq]
      exact (digit_spec (by omega)).2.1
  rw [encode, String.toList_ofList, decode, any_foreign_eq_false hascii]
  simp only [hhead, decide_false, Bool.and_false, if_false, Bool.false_eq_true]
  exact readFrom_encodeWith strict b 0 0

/-- Bytes are read back from their padded text in the address-safe alphabet. -/
theorem decodeUrl_encodeUrl (b : Bytes) : decodeUrl (encodeUrl b).toList = .ok b := by
  have hascii : ∀ c ∈ encodeWith urlDigit b, c.toNat < 128 :=
    forall_mem_encodeWith (fun v hv => (digit_spec hv).2.2.2.2) (by decide) b
  rw [encodeUrl, String.toList_ofList, decodeUrl, any_foreign_eq_false hascii, map_ofUrlDigit_encodeWith]
  exact readFrom_encodeWith false b 0 0

theorem encodeUrl_injective {b c : Bytes} (h : encodeUrl b = encodeUrl c) : b = c := by
  have hb := decodeUrl_encodeUrl b
  rw [h, decodeUrl_encodeUrl, Except.ok.injEq] at hb
  exact hb.symm

end ContractShell.Base64
