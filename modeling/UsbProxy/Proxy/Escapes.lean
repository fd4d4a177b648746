import UsbProxy.Proxy.Injection

/-!
# Byte strings as escapes

A text writes a byte string when it is the `\x` escapes of its bytes, with two digits each.  The
search of `hexToAscii` starts over after each escape, so decoded bytes are searched too: a text is
read back exactly when the bytes it writes do not hold the characters `\x` side by side.
-/

namespace UsbProxy

open Bits Hex Rewrite

/-- The text writes each byte as `\x` and two digits, in either case. -/
inductive Writes : List Byte → List Byte → Prop
  | nil : Writes [] []
  | byte (c d : Byte) (high low : ℕ) (bytes text : List Byte) (hc : hexDigit c = some high)
      (hd : hexDigit d = some low) (h : Writes bytes text) :
      Writes (BitVec.ofNat 8 (16 * high + low) :: bytes) (escape ++ c :: d :: text)

/-- The text in lower case. -/
def escaped (bytes : List Byte) : List Byte := bytes.flatMap fun b => escape ++ hexPair b

theorem writes_escaped : ∀ bytes : List Byte, Writes bytes (escaped bytes)
  | [] => .nil
  | b :: bytes => by
    have hb := b.isLt
    have hhigh := hexDigit_hexChar (n := b.toNat / 16) (by omega)
    have hlow := hexDigit_hexChar (n := b.toNat % 16) (by omega)
    have hbyte : BitVec.ofNat 8 (16 * (b.toNat / 16) + b.toNat % 16) = b := by
      rw [Nat.div_add_mod, BitVec.ofNat_toNat, BitVec.setWidth_eq]
    have hwrites := Writes.byte _ _ _ _ bytes (escaped bytes) hhigh hlow (writes_escaped bytes)
    rw [hbyte] at hwrites
    exact hwrites

/-! ### One escape -/

section Round

variable {c d : Byte} {high low : ℕ} {output output' text : List Byte}

/-- Two digits are read as their byte. -/
theorem scanHex_digits (hc : hexDigit c = some high) (hd : hexDigit d = some low) :
    scanHex [c, d] = BitVec.ofNat 8 (16 * high + low) := by
  have hminus : c ≠ 45 := by
    rintro rfl
    cases hc
  have hplus : c ≠ 43 := by
    rintro rfl
    cases hc
  rw [scanHex, if_neg hminus, if_neg hplus]
  simp [scanDigits, hc, hd]

/-- Behind text that holds no escape, the next one is decoded. -/
theorem decodeRound_escape (h : ¬ escape <:+: output) (hc : hexDigit c = some high)
    (hd : hexDigit d = some low) :
    decodeRound (output ++ (escape ++ c :: d :: text)) =
      some (output ++ BitVec.ofNat 8 (16 * high + low) :: text) := by
  have hfirst : ¬ escape <:+: output ++ escape.dropLast := by
    intro hheld
    rcases List.infix_concat_iff.mp hheld with hsuffix | hheld
    · obtain ⟨t, ht⟩ := hsuffix
      have hlast := congrArg List.getLast? ht
      simp [escape] at hlast
    · exact h hheld
  have hfind := find_append (by decide) output (c :: d :: text) hfirst
  rw [List.append_assoc] at hfind
  have hdigits : ((output ++ (escape ++ c :: d :: text)).drop (output.length + 2)).take 2 = [c, d] := by
    rw [← List.drop_drop, List.drop_left]
    rfl
  have hreplace := replace_append output (escape ++ [c, d]) text [scanHex [c, d]]
  rw [List.append_assoc, List.append_assoc escape] at hreplace
  rw [decodeRound, hfind, Option.map_some, hdigits]
  refine congrArg some (hreplace.trans ?_)
  rw [scanHex_digits hc hd, List.append_assoc]
  rfl

/-- A round makes the text shorter. -/
theorem decodeRound_length (h : decodeRound output = some output') :
    output'.length < output.length := by
  obtain ⟨pos, hfind, rfl⟩ := Option.map_eq_some_iff.mp h
  obtain ⟨u, v, hsplit, hpos⟩ := find_some hfind
  have hlength := congrArg List.length hsplit
  simp only [List.length_append, escape, List.length_cons, List.length_nil] at hlength
  simp only [replace, List.length_append, List.length_take, List.length_drop, List.length_singleton]
  omega

end Round

/-! ### A whole text -/

/-- No escape is left. -/
theorem hexToAscii_decoded (input : List Byte) : ¬ escape <:+: hexToAscii input := by
  obtain ⟨output, houtput⟩ := exhaust_within List.length (fun _ _ h => decodeRound_length h)
    (input.length + 1) input (by omega)
  have hdone := (exhaust_preserves (P := fun _ => True) (fun _ _ _ _ => trivial) trivial houtput).2
  rw [hexToAscii, houtput, Option.getD_some]
  exact find_none.mp (Option.map_eq_none_iff.mp hdone)

/-- Behind decoded bytes a text is decoded escape by escape, while no two bytes make a new one. -/
theorem decode_writes {bytes text : List Byte} (h : Writes bytes text) :
    ∀ output : List Byte, ¬ escape <:+: output ++ bytes →
      exhaust decodeRound (bytes.length + 1) (output ++ text) = some (output ++ bytes) := by
  induction h with
  | nil =>
    intro output hfree
    rw [List.append_nil] at hfree ⊢
    have hnone : decodeRound output = none := Option.map_eq_none_iff.mpr (find_none.mpr hfree)
    simp [exhaust, hnone]
  | byte c d high low bytes text hc hd _ ih =>
    intro output hfree
    have hhead : ¬ escape <:+: output := fun hheld =>
      hfree (hheld.trans (List.prefix_append output _).isInfix)
    have hassoc (l : List Byte) : output ++ BitVec.ofNat 8 (16 * high + low) :: l =
        (output ++ [BitVec.ofNat 8 (16 * high + low)]) ++ l := by simp
    rw [List.length_cons, exhaust, decodeRound_escape hhead hc hd]
    dsimp only
    rw [hassoc bytes] at hfree
    rw [hassoc text, hassoc bytes]
    exact ih _ hfree

theorem Writes.length_le {bytes text : List Byte} (h : Writes bytes text) :
    bytes.length ≤ text.length := by
  induction h with
  | nil => exact le_refl _
  | byte c d high low bytes text hc hd _ ih =>
    simp only [List.length_cons, List.length_append]
    omega

/-- **A text that writes a byte string is read back exactly when the bytes hold no `\x`.**  Every
byte string is written by a text. -/
theorem hexToAscii_reads_iff (bytes : List Byte) :
    Writes bytes (escaped bytes) ∧
      ∀ text, Writes bytes text → (hexToAscii text = bytes ↔ ¬ escape <:+: bytes) := by
  refine ⟨writes_escaped bytes, fun text hwrites => ⟨fun hsame => ?_, fun hfree => ?_⟩⟩
  · rw [← hsame]
    exact hexToAscii_decoded text
  · have hdecode : exhaust decodeRound (bytes.length + 1) text = some bytes :=
      decode_writes hwrites [] hfree
    have hlength := hwrites.length_le
    rw [hexToAscii, exhaust_mono (by omega) hdecode]
    rfl

/-- The four bytes `\x41` come back as a zero byte and `341`. -/
theorem hexToAscii_reread : ¬ ∀ bytes, hexToAscii (escaped bytes) = bytes := by
  intro h
  have hfour := h [92, 120, 52, 49]
  have hread : hexToAscii (escaped [92, 120, 52, 49]) = [0, 51, 52, 49] := by decide
  rw [hread] at hfour
  exact absurd hfour (by decide)

end UsbProxy
