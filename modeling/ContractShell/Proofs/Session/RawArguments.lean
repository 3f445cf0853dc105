import ContractShell.Proofs.Bytes.Unpadded
import ContractShell.Proofs.Session.MethodCall

/-!
The arguments of raw calls and reads.

They are given as base64 text, in either alphabet, and the padding may be missing. The reader is lenient: it passes over
what is no digit and stops where padding completes a group, so it also takes texts that are not base64.

## Main statements

* `rawArguments_eq_ok_iff`: which texts are taken as arguments, and what they stand for.
* `keepsOut_iff`: for which texts it holds that what is not base64 is refused and nothing is sent for it.
* `not_keepsOut_mark`: a text that is not base64 and is taken.
-/

namespace ContractShell

namespace Session

theorem rawArguments_eq_ok_iff (text : String) (b : Bytes) :
    rawArguments text = .ok b ↔ Base64.IsAscii text ∧ Base64.Reads (Base64.seen text) b := by
  rw [← Base64.decodeUnpadded_eq_ok_iff, rawArguments]
  cases Base64.decodeUnpadded text <;> simp [Except.mapError]

theorem rawArguments_eq_error {text : String} (h : ∀ b, rawArguments text ≠ .ok b) :
    rawArguments text = .error .arguments := by
  unfold rawArguments at h ⊢
  cases hdecode : Base64.decodeUnpadded text with
  | ok b => exact absurd (by rw [hdecode]; rfl) (h b)
  | error f => rfl

/-- What is settled does not touch the world. -/
theorem world_settle_bind {α β : Type} {r : Except Fault α} {f : α → Attempt β} {w : World}
    (h : ∀ a, r = .ok a → (f a w).2 = w) : ((settle r >>= f) w).2 = w := by
  cases hr : r with
  | error fault => rw [settle_error_bind rfl]
  | ok a =>
    rw [settle_ok_bind rfl]
    exact h a hr

theorem RawCall.arguments_of_ofValues {args : Command.Values} {raw : RawCall} (h : RawCall.ofValues args = .ok raw) :
    needed args "arguments" = .ok raw.arguments := by
  obtain ⟨contract, -, h⟩ := of_bind_eq_ok h
  obtain ⟨entryPoint, -, h⟩ := of_bind_eq_ok h
  obtain ⟨arguments, harguments, h⟩ := of_bind_eq_ok h
  cases h
  exact harguments

/-- A text that is not base64 is refused, and neither a read nor a call sends anything for it. -/
def KeepsOut (text : String) : Prop :=
  ¬ Base64.IsPadded text → rawArguments text = .error .arguments ∧
    ∀ (args : Command.Values) (s : Session) (w : World), needed args "arguments" = .ok text →
      (readRaw args s w).2 = w ∧ (callRaw args s w).2 = w

/-- Nothing is sent for arguments that are refused. -/
theorem world_of_refused {text : String} (h : rawArguments text = .error .arguments) {args : Command.Values}
    (hargs : needed args "arguments" = .ok text) (s : Session) (w : World) :
    (readRaw args s w).2 = w ∧ (callRaw args s w).2 = w := by
  have hrefused {raw : RawCall} (hraw : RawCall.ofValues args = .ok raw) {b : Bytes} :
      rawArguments raw.arguments ≠ .ok b := by
    have htext := RawCall.arguments_of_ofValues hraw
    rw [hargs, Except.ok.injEq] at htext
    rw [← htext, h]
    exact fun heq => by cases heq
  constructor
  · refine world_settle_bind fun raw hraw => world_settle_bind fun client _ => world_settle_bind fun contract _ => ?_
    exact world_settle_bind fun entry _ => world_settle_bind fun b hb => absurd hb (hrefused hraw)
  · refine world_settle_bind fun raw hraw => world_settle_bind fun key _ => world_settle_bind fun client _ => ?_
    refine world_settle_bind fun contract _ => world_settle_bind fun entry _ => ?_
    exact world_settle_bind fun b hb => absurd hb (hrefused hraw)

/-- A text is taken as arguments when it is in ASCII and what the reader sees of it has the form of groups; then it stands
for the bytes of these groups. Base64 is taken unless one digit stands alone. So what is not base64 is kept out just when
it has another character than ASCII, or what the reader sees of it has not the form of groups. -/
theorem keepsOut_iff (text : String) :
    (∀ b, rawArguments text = .ok b ↔ Base64.IsAscii text ∧ Base64.Reads (Base64.seen text) b) ∧
      (∀ digits n, text.toList = digits ++ List.replicate n '=' → (∀ c ∈ digits, Base64.IsDigit c) →
        ((∃ b, rawArguments text = .ok b) ↔ digits.length % 4 ≠ 1)) ∧
      (KeepsOut text ↔
        Base64.IsPadded text ∨ ¬ Base64.IsAscii text ∨ ∀ b, ¬ Base64.Reads (Base64.seen text) b) := by
  have htaken := rawArguments_eq_ok_iff text
  refine ⟨htaken, ?_, ?_⟩
  · intro digits n htext hdigits
    have hascii : Base64.IsAscii text := Base64.IsPadded.isAscii ⟨digits, n, htext, hdigits⟩
    rw [← Base64.exists_reads_iff_of_digits htext hdigits]
    exact exists_congr fun b => (htaken b).trans (and_iff_right hascii)
  · constructor
    · intro hkeeps
      by_cases hpadded : Base64.IsPadded text
      · exact .inl hpadded
      · refine .inr (or_iff_not_imp_left.mpr fun hascii b hreads => ?_)
        have hok := (htaken b).mpr ⟨not_not.mp hascii, hreads⟩
        rw [(hkeeps hpadded).1] at hok
        cases hok
    · intro h hforeign
      have hrefused : rawArguments text = .error .arguments := by
        refine rawArguments_eq_error fun b hb => ?_
        obtain ⟨hascii, hreads⟩ := (htaken b).mp hb
        rcases h with h | h | h
        · exact hforeign h
        · exact h hascii
        · exact h b hreads
      exact ⟨hrefused, fun args s w hargs => world_of_refused hrefused hargs s w⟩

/-- A mark behind the padding does not keep a text from being taken. -/
theorem not_keepsOut_mark : rawArguments "CAE=!" = .ok [8, 1] ∧ ¬ Base64.IsPadded "CAE=!" ∧ ¬ KeepsOut "CAE=!" := by
  have hdecode : Base64.decodeUnpadded "CAE=!" = .ok [8, 1] := by decide +kernel
  have htaken : rawArguments "CAE=!" = .ok [8, 1] := by
    rw [rawArguments, hdecode]
    rfl
  have hforeign : ¬ Base64.IsPadded "CAE=!" := by
    rintro ⟨digits, n, htext, hdigits⟩
    have hmem : '!' ∈ digits ++ List.replicate n '=' := by
      rw [← htext]
      decide
    rcases List.mem_append.mp hmem with hmem | hmem
    · exact absurd (hdigits '!' hmem) (by unfold Base64.IsDigit; decide)
    · exact absurd (List.eq_of_mem_replicate hmem) (by decide)
  refine ⟨htaken, hforeign, fun h => ?_⟩
  rw [(h hforeign).1] at htaken
  cases htaken

end Session

end ContractShell
