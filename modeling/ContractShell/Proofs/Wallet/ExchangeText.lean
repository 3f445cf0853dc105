import ContractShell.Proofs.Bytes.Base58
import ContractShell.Proofs.Steps
import ContractShell.Proofs.Wallet.RoundTrip

/-!
The exchange texts of private keys, and base58 texts with a checksum, which they are.

A text with a checksum holds data of any length, and each data has one text. A private key has two: its bytes stand behind
the mark of private keys, with nothing after them or with the flag byte.

## Main statements

* `Base58.decodeCheck_eq_ok_iff`: the one text that data are read from.
* `Key.ofBytes_eq_ok_iff`: which bytes are those of a key.
* `Key.ofWif_eq_ok_iff`: the two texts that a key is read from.
* `checked_and_exchanged_exactly`: what is read, and that all else is refused.
-/

namespace ContractShell

/-! ## 1. Texts with a checksum -/

namespace Base58

theorem length_checksum (data : Bytes) : (checksum data).length = checksumSize := by
  unfold checksum Sha256.digestTwice
  rw [List.length_take, Sha256.length_digest]
  decide

theorem encodeCheck_eq (version payload : Bytes) : encodeCheck version payload = encodeCheck [] (version ++ payload) := rfl

section

variable {data sum : Bytes} (hsum : sum.length = checksumSize)

include hsum

theorem dropLast_append : Bytes.dropLast checksumSize (data ++ sum) = data := by
  unfold Bytes.dropLast
  rw [List.length_append, hsum, Nat.add_sub_cancel, List.take_left]

theorem takeLast_append : Bytes.takeLast checksumSize (data ++ sum) = sum := by
  unfold Bytes.takeLast
  rw [List.length_append, hsum, Nat.add_sub_cancel, List.drop_left]

end

theorem decodeCheck_encodeCheck (data : Bytes) : decodeCheck (encodeCheck [] data) = .ok data := by
  have hsum := length_checksum data
  have hlong : ¬ (data ++ checksum data).length < checksumSize := by
    rw [List.length_append, hsum]
    omega
  show decodeCheck (encode (data ++ checksum data)) = .ok data
  unfold decodeCheck
  rw [decode_encode]
  simp only
  rw [if_neg hlong, dropLast_append hsum, takeLast_append hsum, if_pos rfl]

/-- Data are read from the text that they are written as, and from no other. -/
theorem decodeCheck_eq_ok_iff {s : List Char} {data : Bytes} :
    decodeCheck s = .ok data ↔ s = encodeCheck [] data := by
  constructor
  · intro h
    unfold decodeCheck at h
    cases hraw : decode s with
    | error c =>
      rw [hraw] at h
      cases h
    | ok raw =>
      rw [hraw] at h
      simp only at h
      by_cases hshort : raw.length < checksumSize
      · rw [if_pos hshort] at h
        cases h
      · rw [if_neg hshort] at h
        by_cases hsum : checksum (Bytes.dropLast checksumSize raw) = Bytes.takeLast checksumSize raw
        · rw [if_pos hsum] at h
          cases h
          -- What was read is the data and their checksum, and it has only the text that it was read from.
          show s = encode (Bytes.dropLast checksumSize raw ++ checksum (Bytes.dropLast checksumSize raw))
          rw [hsum, Bytes.dropLast_append_takeLast, encode_of_decode hraw]
        · rw [if_neg hsum] at h
          cases h
  · intro h
    rw [h]
    exact decodeCheck_encodeCheck data

end Base58

/-! ## 2. Bytes of keys -/

namespace Key

/-- Bytes are those of a private key: thirty-two of them, and their number is positive and below the order of the curve. -/
structure IsSecret (b : Bytes) : Prop where
  length : b.length = size
  positive : 0 < Bytes.toNat b
  below : Bytes.toNat b < Secp256k1.order

theorem isSecret_secret (k : Key) : IsSecret k.secret := by
  have hnumber : Bytes.toNat k.secret = k.number := Bytes.toNat_ofNat (Nat.lt_trans k.below (by decide))
  constructor
  · exact k.length_secret
  · rw [hnumber]
    exact k.positive
  · rw [hnumber]
    exact k.below

/-- The bytes of a private key are those that it is written as. -/
theorem ofBytes_eq_ok_iff {b : Bytes} {k : Key} : ofBytes b = .ok k ↔ IsSecret b ∧ k.secret = b := by
  constructor
  · intro h
    unfold ofBytes at h
    by_cases hlength : b.length = size
    · rw [if_neg (not_not.mpr hlength)] at h
      by_cases hrange : 0 < Bytes.toNat b ∧ Bytes.toNat b < Secp256k1.order
      · rw [dif_pos hrange] at h
        cases h
        refine ⟨⟨hlength, hrange.1, hrange.2⟩, ?_⟩
        show Bytes.ofNat size (Bytes.toNat b) = b
        rw [← hlength, Bytes.ofNat_toNat]
      · rw [dif_neg hrange] at h
        cases h
    · rw [if_pos hlength] at h
      cases h
  · rintro ⟨-, rfl⟩
    exact ofBytes_secret k

/-! ## 3. Exchange texts -/

/-- The flag byte that may stand after the bytes of a private key. -/
def flag : Bytes := [1]

/-- A text is an exchange text of bytes: they stand behind the mark of private keys, without the flag byte or before it. -/
def IsExchangeText (s : List Char) (b : Bytes) : Prop :=
  s = Base58.encodeCheck [secretVersion] b ∨ s = Base58.encodeCheck [secretVersion] (b ++ flag)

/-- Bytes of a key's length are what is left of a payload when the payload is just them, or they and the flag byte. -/
theorem dropFlag_eq_iff {payload b : Bytes} (hb : b.length = size) :
    dropFlag payload = b ↔ payload = b ∨ payload = b ++ flag := by
  unfold dropFlag
  by_cases hflag : payload.length = size + 1 ∧ payload.getLast? = some 1
  · rw [if_pos hflag]
    obtain ⟨init, x, rfl, hinit⟩ := Bytes.exists_append_singleton hflag.1
    have hx : x = 1 := by simpa using hflag.2
    rw [hx, List.take_left' hinit]
    constructor
    · rintro rfl
      exact .inr rfl
    · rintro (h | h)
      · -- A payload with the flag byte is longer than a key.
        have hlength := congrArg List.length h
        rw [List.length_append, hinit, hb] at hlength
        simp at hlength
      · exact List.append_cancel_right h
  · rw [if_neg hflag]
    constructor
    · exact .inl
    · rintro (h | rfl)
      · exact h
      · refine absurd ⟨?_, List.getLast?_concat ..⟩ hflag
        rw [List.length_append, hb]
        rfl

/-- A private key is read from its two exchange texts, and from no other text. -/
theorem ofWif_eq_ok_iff {s : String} {k : Key} : ofWif s = .ok k ↔ IsExchangeText s.toList k.secret := by
  have hmarked (payload : Bytes) : Base58.decodeCheck s.toList = .ok (secretVersion :: payload) ↔
      s.toList = Base58.encodeCheck [secretVersion] payload := by
    rw [Base58.decodeCheck_eq_ok_iff, Base58.encodeCheck_eq [secretVersion]]
    rfl
  constructor
  · intro h
    unfold ofWif at h
    cases hdata : Base58.decodeCheck s.toList with
    | error f =>
      rw [hdata] at h
      cases h
    | ok data =>
      rw [hdata] at h
      cases data with
      | nil => cases h
      | cons version payload =>
        simp only at h
        by_cases hversion : version = secretVersion
        · rw [if_pos hversion] at h
          obtain ⟨hsecret, hbytes⟩ := ofBytes_eq_ok_iff.mp h
          rw [hversion] at hdata
          have htext := (hmarked payload).mp hdata
          rcases (dropFlag_eq_iff hsecret.length).mp rfl with hpayload | hpayload
          · left
            rw [hbytes, ← hpayload]
            exact htext
          · right
            rw [hbytes, ← hpayload]
            exact htext
        · rw [if_neg hversion] at h
          cases h
  · intro h
    obtain ⟨payload, htext, hpayload⟩ : ∃ payload, s.toList = Base58.encodeCheck [secretVersion] payload ∧
        (payload = k.secret ∨ payload = k.secret ++ flag) := by
      rcases h with h | h
      · exact ⟨_, h, .inl rfl⟩
      · exact ⟨_, h, .inr rfl⟩
    have hdrop := (dropFlag_eq_iff k.length_secret).mpr hpayload
    unfold ofWif
    rw [(hmarked payload).mpr htext]
    show (if secretVersion = secretVersion then ofBytes (dropFlag payload) else _) = _
    rw [if_pos rfl, hdrop, ofBytes_secret]

/-- The bytes of a private key are read from a text just when it is one of their two exchange texts. -/
theorem exists_ofWif_iff {s : String} {b : Bytes} :
    (∃ k, ofWif s = .ok k ∧ k.secret = b) ↔ IsSecret b ∧ IsExchangeText s.toList b := by
  constructor
  · rintro ⟨k, hread, rfl⟩
    exact ⟨isSecret_secret k, ofWif_eq_ok_iff.mp hread⟩
  · rintro ⟨hsecret, htext⟩
    cases hk : ofBytes b with
    | ok k =>
      obtain ⟨-, hbytes⟩ := ofBytes_eq_ok_iff.mp hk
      refine ⟨k, ?_, hbytes⟩
      rw [ofWif_eq_ok_iff, hbytes]
      exact htext
    | error f =>
      unfold ofBytes at hk
      rw [if_neg (not_not.mpr hsecret.length), dif_pos ⟨hsecret.positive, hsecret.below⟩] at hk
      cases hk

end Key

/-- Data are read from the text with a checksum that they are written as, and just the other texts are refused. The bytes of
a private key are read from their two exchange texts, and just the texts that are none are refused. A key is read back from
the one that it is written as. -/
theorem checked_and_exchanged_exactly :
    (∀ version payload, Base58.decodeCheck (Base58.encodeCheck version payload) = .ok (version ++ payload)) ∧
      (∀ s data, Base58.decodeCheck s = .ok data ↔ s = Base58.encodeCheck [] data) ∧
      (∀ s, (∃ fault, Base58.decodeCheck s = .error fault) ↔ ∀ data, s ≠ Base58.encodeCheck [] data) ∧
      (∀ s b, (∃ k, Key.ofWif s = .ok k ∧ k.secret = b) ↔ Key.IsSecret b ∧ Key.IsExchangeText s.toList b) ∧
      (∀ s, (∃ fault, Key.ofWif s = .error fault) ↔ ∀ b, ¬ (Key.IsSecret b ∧ Key.IsExchangeText s.toList b)) ∧
      ∀ k : Key, Key.ofWif k.wif = .ok k := by
  refine ⟨?_, fun s data => Base58.decodeCheck_eq_ok_iff, ?_, fun s b => Key.exists_ofWif_iff, ?_, ?_⟩
  · intro version payload
    rw [Base58.encodeCheck_eq]
    exact Base58.decodeCheck_encodeCheck _
  · intro s
    rw [exists_error_iff]
    exact forall_congr' fun data => not_congr Base58.decodeCheck_eq_ok_iff
  · intro s
    rw [exists_error_iff]
    constructor
    · intro hrefused b hb
      obtain ⟨k, hk, -⟩ := Key.exists_ofWif_iff.mpr hb
      exact hrefused k hk
    · intro hother k hk
      exact hother k.secret (Key.exists_ofWif_iff.mp ⟨k, hk, rfl⟩)
  · intro k
    rw [Key.ofWif_eq_ok_iff, Key.wif, String.toList_ofList]
    exact .inl rfl

end ContractShell
