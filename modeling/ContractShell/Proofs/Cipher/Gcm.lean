import ContractShell.Cipher.Gcm

/-!
Sealing and opening: what was sealed under a key of thirty-two bytes is opened with that key and nonce.

The tag has to be found at the end of the sealed data, so its length matters, and that of a block does, and with it that of
the schedule.

## Main statements

* `length_encryptBlock`: a block stays a block.
* `crypt_crypt`: the key stream is taken away by adding it once more.
* `decrypt?_encrypt`: sealed data is opened.
-/

namespace ContractShell

/-! ## 1. Exclusive or -/

namespace Bytes

@[simp] theorem length_xor (a b : Bytes) : (xor a b).length = min a.length b.length := List.length_zipWith

theorem xor_xor (a k : Bytes) (h : a.length = k.length) : xor (xor a k) k = a := by
  induction a generalizing k with
  | nil => rfl
  | cons x a ih =>
    cases k with
    | nil => cases h
    | cons y k =>
      have hhead : x ^^^ y ^^^ y = x := by rw [UInt8.xor_assoc, UInt8.xor_self, UInt8.xor_zero]
      show (x ^^^ y ^^^ y) :: xor (xor a k) k = x :: a
      rw [hhead, ih k (Nat.succ.inj h)]

theorem dropLast_append {a b : Bytes} {n : Nat} (h : b.length = n) : dropLast n (a ++ b) = a := by
  rw [dropLast, List.length_append, h, Nat.add_sub_cancel, List.take_left]

theorem takeLast_append {a b : Bytes} {n : Nat} (h : b.length = n) : takeLast n (a ++ b) = b := by
  rw [takeLast, List.length_append, h, Nat.add_sub_cancel, List.drop_left]

end Bytes

/-! ## 2. Blocks -/

namespace Aes

theorem length_groups {b : Bytes} {n : Nat} (h : b.length = 4 * n) :
    (groups b).length = n ∧ ∀ w ∈ groups b, w.length = 4 := by
  induction n generalizing b with
  | zero =>
    rw [List.length_eq_zero_iff.mp h]
    exact ⟨rfl, by simp [groups]⟩
  | succ n ih =>
    rcases b with _ | ⟨w, _ | ⟨x, _ | ⟨y, _ | ⟨z, r⟩⟩⟩⟩
    case cons.cons.cons.cons =>
      have hr : r.length = 4 * n := by
        simp only [List.length_cons] at h
        omega
      obtain ⟨hlength, hall⟩ := ih hr
      simp only [groups, List.length_cons, hlength, List.forall_mem_cons]
      exact ⟨trivial, rfl, hall⟩
    all_goals
      simp only [List.length_cons, List.length_nil] at h
      omega

/-- Every step of the schedule adds four bytes. What carries the induction is that the eight groups that a step looks at
have four bytes each. -/
theorem length_expandFrom (n i : Nat) (power : UInt8) (recent : List Bytes) (hcount : recent.length = 8)
    (hrecent : ∀ w ∈ recent, w.length = 4) :
    (expandFrom n i power recent).length = n ∧ ∀ w ∈ expandFrom n i power recent, w.length = 4 := by
  induction n generalizing i power recent with
  | zero => exact ⟨rfl, by simp [expandFrom]⟩
  | succ n ih =>
    obtain ⟨last, older, rfl⟩ : ∃ last older, recent = last :: older := List.exists_cons_of_length_eq_add_one hcount
    have hlast : last.length = 4 := hrecent last List.mem_cons_self
    have holdest : ((last :: older).getD 7 []).length = 4 := by
      have hlt : 7 < (last :: older).length := by omega
      rw [List.getD_eq_getElem?_getD, List.getElem?_eq_getElem hlt, Option.getD_some]
      exact hrecent _ (List.getElem_mem hlt)
    rw [expandFrom, List.headD_cons]
    -- However the last group is turned, it keeps its four bytes.
    generalize hturned : (if i % 8 = 0 then Bytes.xor (subBytes (last.drop 1 ++ last.take 1)) [power, 0, 0, 0]
      else if i % 8 = 4 then subBytes last else last) = turned
    have hlength : turned.length = 4 := by
      rw [← hturned]
      split
      · simp [hlast]
      · split
        · rw [length_subBytes, hlast]
        · exact hlast
    have hnext : (Bytes.xor ((last :: older).getD 7 []) turned).length = 4 := by
      rw [Bytes.length_xor, holdest, hlength]
      rfl
    obtain ⟨hcount', hall⟩ := ih (i + 1) (if i % 8 = 0 then double power else power)
      (Bytes.xor ((last :: older).getD 7 []) turned :: (last :: older).take 7)
      (by rw [List.length_cons, List.length_take, hcount]; rfl)
      (by
        rw [List.forall_mem_cons]
        exact ⟨hnext, fun w hw => hrecent w (List.mem_of_mem_take hw)⟩)
    simp only [List.length_cons, List.forall_mem_cons]
    exact ⟨by rw [hcount'], hnext, hall⟩

/-- A key of thirty-two bytes gives a key of sixteen bytes for the start and for each round. -/
theorem length_schedule {key : Bytes} (h : key.length = 32) : (schedule key).length = 16 * (rounds + 1) := by
  obtain ⟨hfirst, hfours⟩ := length_groups (b := key) (n := 8) h
  obtain ⟨hcount, hmore⟩ := length_expandFrom (4 * (rounds + 1) - (groups key).length) 8 1
    (groups key).reverse (by rw [List.length_reverse, hfirst])
    fun w hw => hfours w (List.mem_reverse.mp hw)
  have hall : ∀ w ∈ groups key ++ expandFrom (4 * (rounds + 1) - (groups key).length) 8 1 (groups key).reverse,
      w.length = 4 := by
    intro w hw
    rcases List.mem_append.mp hw with hw | hw
    · exact hfours w hw
    · exact hmore w hw
  show (List.flatten _).length = _
  rw [List.length_flatten, List.map_congr_left hall, List.map_const', List.sum_replicate_nat, List.length_append, hcount,
    hfirst]
  rfl

@[simp] theorem length_shiftRows (s : Bytes) : (shiftRows s).length = 16 := by simp [shiftRows]

theorem length_roundsFrom (n : Nat) {keys : Bytes} (s : Bytes) (h : 16 * (n + 1) ≤ keys.length) :
    (roundsFrom n keys s).length = 16 := by
  induction n generalizing keys s with
  | zero => simp [roundsFrom]; omega
  | succ n ih =>
    rw [roundsFrom]
    refine ih _ ?_
    rw [List.length_drop]
    omega

/-- A block stays a block. -/
theorem length_encryptBlock {schedule : Bytes} (h : schedule.length = 16 * (rounds + 1)) (block : Bytes) :
    (encryptBlock schedule block).length = 16 := by
  refine length_roundsFrom _ _ ?_
  rw [List.length_drop, h]
  decide

end Aes

/-! ## 3. Sealed data -/

namespace Gcm

theorem length_crypt (schedule start data : Bytes) : (crypt schedule start data).length = data.length := by
  rw [crypt, Bytes.length_xor, length_keyStream, Nat.min_self]

/-- The key stream is taken away by adding it once more. -/
theorem crypt_crypt (schedule start data : Bytes) : crypt schedule start (crypt schedule start data) = data := by
  have hlength := length_crypt schedule start data
  rw [crypt, hlength, crypt]
  exact Bytes.xor_xor _ _ (length_keyStream _ _ _).symm

theorem length_tag {schedule : Bytes} (h : schedule.length = 16 * (Aes.rounds + 1)) (hashKey : Nat)
    (start ciphertext : Bytes) : (tag schedule hashKey start ciphertext).length = tagSize := by
  rw [tag, Bytes.length_xor, Bytes.length_ofNat, Aes.length_encryptBlock h]
  rfl

/-- Sealed data is opened with the key and the nonce that it was sealed with. -/
theorem decrypt?_encrypt {key : Bytes} (h : key.length = 32) (nonce data : Bytes) :
    decrypt? key nonce (encrypt key nonce data) = some data := by
  have htag := length_tag (Aes.length_schedule h) (hashKey (Aes.schedule key))
    (firstCounter (hashKey (Aes.schedule key)) nonce)
    (crypt (Aes.schedule key) (firstCounter (hashKey (Aes.schedule key)) nonce) data)
  have hlong : ¬ (encrypt key nonce data).length < tagSize := by
    simp only [encrypt, List.length_append, htag]
    omega
  unfold decrypt?
  rw [if_neg hlong]
  simp only [encrypt, Bytes.dropLast_append htag, Bytes.takeLast_append htag, if_true, crypt_crypt]

end Gcm

end ContractShell
