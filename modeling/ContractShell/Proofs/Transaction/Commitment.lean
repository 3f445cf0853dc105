import ContractShell.Proofs.Bytes.Base64
import ContractShell.Proofs.Json.Canonical
import ContractShell.Transaction

/-!
The name of a transaction commits to what the transaction is made of.

Every field of a header is written in a form that can be read back, and the operations are behind the digest of their
canonical text. Two names are therefore equal exactly if all parts are, as far as the digest tells the four texts apart.

## Main statements

* `Header.eq_of_same`: headers that are the same as objects are equal.
* `canonical_text_and_name_commit`: what canonical texts and the names of transactions stand for.
-/

namespace ContractShell

/-- Two messages do not collide: they have one digest only if they are one message. -/
def Sha256.TellsApart (a b : Bytes) : Prop := digest a = digest b → a = b

/-- The bytes that a document's digest is taken of. -/
def Json.canonicalBytes (v : Json) : Bytes := Text.Utf8.encode (canonical v)

theorem canonicalDigest_eq (v : Json) : canonicalDigest v = Sha256.digest v.canonicalBytes := rfl

/-! ## 1. Fields -/

namespace Json

theorem mem_of_sameMembers {m n : List (String × Json)} (h : SameMembers m n) {key s : String}
    (hmem : (key, .str s) ∈ m) : (key, .str s) ∈ n := by
  match h with
  | .nil => exact hmem
  | .cons hv h =>
    rcases List.mem_cons.mp hmem with heq | hmem
    · obtain ⟨rfl, rfl⟩ := Prod.mk.inj heq
      cases hv
      exact List.mem_cons_self
    · exact List.mem_cons_of_mem _ (mem_of_sameMembers h hmem)

/-- Objects that are the same up to order have the same strings under the same keys. -/
theorem Same.mem_of_mem {m n : List (String × Json)} (h : Same (.obj m) (.obj n)) (key s : String)
    (hmem : (key, .str s) ∈ m) : (key, .str s) ∈ n := by
  cases h with
  | obj horder hmembers => exact mem_of_sameMembers hmembers (horder.mem_iff.mp hmem)

end Json

/-! ## 2. Headers -/

theorem Header.isProper_toJson (h : Header) : h.toJson.isProper = true := by
  simp [Header.toJson]

/-- Headers that are the same as objects are equal. -/
theorem Header.eq_of_same {h h' : Header} (hsame : h.toJson.Same h'.toJson) : h = h' := by
  have hfield := Json.Same.mem_of_mem hsame
  -- The five keys are different, so each string is found under one key only.
  have hchain : Base64.encodeUrl h.chainId = Base64.encodeUrl h'.chainId := by
    simpa using hfield "chain_id" (Base64.encodeUrl h.chainId) (by simp)
  have hlimit : toString h.rcLimit = toString h'.rcLimit := by
    simpa using hfield "rc_limit" (toString h.rcLimit) (by simp)
  have hnonce : toString h.nonce = toString h'.nonce := by
    simpa using hfield "nonce" (toString h.nonce) (by simp)
  have hroot : Base64.encodeUrl h.merkleRoot = Base64.encodeUrl h'.merkleRoot := by
    simpa using hfield "operation_merkle_root" (Base64.encodeUrl h.merkleRoot) (by simp)
  have hpayer : Base58.toString h.payer = Base58.toString h'.payer := by
    simpa using hfield "payer" (Base58.toString h.payer) (by simp)
  cases h
  cases h'
  rw [Header.mk.injEq]
  exact ⟨Base64.encodeUrl_injective hchain, Json.numeral_inj hlimit, Json.numeral_inj hnonce,
    Base64.encodeUrl_injective hroot, Base58.toString_injective hpayer⟩

/-! ## 3. Names -/

namespace Transaction

/-- A name shows the digest of the header. -/
theorem digest_eq_of_id_eq {t t' : Transaction} (h : t.id = t'.id) : t.digest = t'.digest := by
  have htext := String.ofList_injective h
  have hbytes := Hex.encode_injective (List.cons.inj (List.cons.inj htext).2).2
  exact List.append_cancel_left hbytes

theorem id_eq_iff_of_tellsApart {t t' : Transaction}
    (h : Sha256.TellsApart t.header.toJson.canonicalBytes t'.header.toJson.canonicalBytes) :
    t.id = t'.id ↔ t.header = t'.header := by
  constructor
  · intro hid
    have hbytes := h (digest_eq_of_id_eq hid)
    exact Header.eq_of_same
      ((Json.encode_canonical_eq_iff t.header.isProper_toJson t'.header.isProper_toJson).mp hbytes)
  · intro hheader
    rw [id, id, digest, digest, hheader]

/-- The header of a transaction stands for its operations up to the order of keys. -/
theorem header_build_eq_iff {operations operations' : List Json} {chainId chainId' payer payer' : Bytes}
    {nonce nonce' rcLimit rcLimit' : Int} (ho : (Json.arr operations).isProper = true)
    (ho' : (Json.arr operations').isProper = true)
    (h : Sha256.TellsApart (Json.arr operations).canonicalBytes (Json.arr operations').canonicalBytes) :
    (build operations chainId nonce rcLimit payer).header = (build operations' chainId' nonce' rcLimit' payer').header ↔
      chainId = chainId' ∧ nonce = nonce' ∧ rcLimit = rcLimit' ∧ payer = payer' ∧
        (Json.arr operations).Same (.arr operations') := by
  have hsame : digestMark ++ canonicalDigest (.arr operations) = digestMark ++ canonicalDigest (.arr operations') ↔
      (Json.arr operations).Same (.arr operations') := by
    rw [List.append_cancel_left_eq, ← Json.encode_canonical_eq_iff ho ho']
    exact ⟨h, congrArg Sha256.digest⟩
  rw [build, build, Header.mk.injEq, hsame]
  tauto

end Transaction

/-- Canonical texts stand for documents up to the order of keys, and so do the names of transactions for what the
transactions are built of, when the digest tells apart the texts of the operations and those of the headers. -/
theorem canonical_text_and_name_commit :
    (∀ v w : Json, v.isProper = true → w.isProper = true → (v.canonicalBytes = w.canonicalBytes ↔ v.Same w)) ∧
    ∀ (operations operations' : List Json) (chainId chainId' payer payer' : Bytes) (nonce nonce' rcLimit rcLimit' : Int),
      let t := Transaction.build operations chainId nonce rcLimit payer
      let t' := Transaction.build operations' chainId' nonce' rcLimit' payer'
      (∀ o ∈ operations, o.isProper = true) → (∀ o ∈ operations', o.isProper = true) →
      Sha256.TellsApart (Json.arr operations).canonicalBytes (Json.arr operations').canonicalBytes →
      Sha256.TellsApart t.header.toJson.canonicalBytes t'.header.toJson.canonicalBytes →
      (t.id = t'.id ↔ chainId = chainId' ∧ nonce = nonce' ∧ rcLimit = rcLimit' ∧ payer = payer' ∧
        (Json.arr operations).Same (.arr operations')) := by
  refine ⟨fun v w => Json.encode_canonical_eq_iff, ?_⟩
  intro operations operations' chainId chainId' payer payer' nonce nonce' rcLimit rcLimit' t t' ho ho' hroot hid
  rw [Transaction.id_eq_iff_of_tellsApart hid]
  exact Transaction.header_build_eq_iff ((Json.isProper_arr _).mpr ho) ((Json.isProper_arr _).mpr ho') hroot

/-- The order of two keys shows neither in the text nor in the name; a value does. -/
theorem canonical_text_and_name_commit_of_two_orders :
    let one (s : String) : Json := .obj [("b", .str s), ("a", .null)]
    let other (s : String) : Json := .obj [("a", .null), ("b", .str s)]
    (one "x").canonicalBytes = (other "x").canonicalBytes ∧ (one "x").canonicalBytes ≠ (other "y").canonicalBytes ∧
      (Transaction.build [one "x"] [1] 1 5 [2]).id = (Transaction.build [other "x"] [1] 1 5 [2]).id := by
  intro one other
  have hsame : (one "x").Same (other "x") := .obj (.swap _ _ _) (.cons .null (.cons (.str "x") .nil))
  have hdifferent : ¬ (one "x").Same (other "y") := by
    intro h
    simpa using h.mem_of_mem "b" "x" List.mem_cons_self
  have hlist : (Json.arr [one "x"]).Same (.arr [other "x"]) := .arr (.cons hsame .nil)
  have htext := (canonical_text_and_name_commit.1 (.arr [one "x"]) (.arr [other "x"]) rfl rfl).mpr hlist
  have hheader : (Transaction.build [one "x"] [1] 1 5 [2]).header = (Transaction.build [other "x"] [1] 1 5 [2]).header := by
    rw [Transaction.build, Transaction.build, canonicalDigest_eq, canonicalDigest_eq, htext]
  refine ⟨(canonical_text_and_name_commit.1 (one "x") (other "x") rfl rfl).mpr hsame,
    mt (canonical_text_and_name_commit.1 (one "x") (other "y") rfl rfl).mp hdifferent, ?_⟩
  refine (canonical_text_and_name_commit.2 [one "x"] [other "x"] [1] [1] [2] [2] 1 1 5 5 ?_ ?_ ?_ ?_).mpr
    ⟨rfl, rfl, rfl, rfl, hlist⟩
  · exact fun o ho => List.mem_singleton.mp ho ▸ rfl
  · exact fun o ho => List.mem_singleton.mp ho ▸ rfl
  · exact fun _ => htext
  · intro _
    rw [hheader]

end ContractShell
