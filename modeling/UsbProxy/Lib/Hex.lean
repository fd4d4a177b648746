import UsbProxy.Lib.Bits

/-!
# Hexadecimal digits

A character is its byte.  Digits are written in lower case and read in either case.
-/

namespace Hex

open Bits (Byte)

/-- The digit a character is read as in base 16. -/
def hexDigit (c : Byte) : Option ℕ :=
  if 48 ≤ c.toNat ∧ c.toNat ≤ 57 then some (c.toNat - 48)
  else if 97 ≤ c.toNat ∧ c.toNat ≤ 102 then some (c.toNat - 87)
  else if 65 ≤ c.toNat ∧ c.toNat ≤ 70 then some (c.toNat - 55)
  else none

/-- The character of a digit. -/
def hexChar (n : ℕ) : Byte := if n < 10 then BitVec.ofNat 8 (48 + n) else BitVec.ofNat 8 (87 + n)

theorem hexDigit_hexChar {n : ℕ} (h : n < 16) : hexDigit (hexChar n) = some n := by
  interval_cases n <;> decide

/-- The two digits of a byte, the high one first. -/
def hexPair (b : Byte) : List Byte := [hexChar (b.toNat / 16), hexChar (b.toNat % 16)]

/-- The text of a byte string. -/
def hex (l : List Byte) : List Byte := l.flatMap hexPair

@[simp] theorem hex_cons (b : Byte) (l : List Byte) : hex (b :: l) = hexPair b ++ hex l := rfl

@[simp] theorem hex_length (l : List Byte) : (hex l).length = 2 * l.length := by
  induction l with
  | nil => rfl
  | cons b l ih =>
    rw [hex_cons, List.length_append, ih, List.length_cons]
    simp only [hexPair, List.length_cons, List.length_nil]
    omega

/-- Pairs of digits, read as bytes. -/
def ofPairs : List Byte → Option (List Byte)
  | [] => some []
  | [_] => none
  | c :: d :: rest =>
    match hexDigit c, hexDigit d, ofPairs rest with
    | some high, some low, some l => some (BitVec.ofNat 8 (16 * high + low) :: l)
    | _, _, _ => none

theorem ofPairs_hex (l : List Byte) : ofPairs (hex l) = some l := by
  induction l with
  | nil => rfl
  | cons b l ih =>
    have hb := b.isLt
    have hhigh := hexDigit_hexChar (n := b.toNat / 16) (by omega)
    have hlow := hexDigit_hexChar (n := b.toNat % 16) (by omega)
    have hbyte : BitVec.ofNat 8 (16 * (b.toNat / 16) + b.toNat % 16) = b := by
      rw [Nat.div_add_mod, BitVec.ofNat_toNat, BitVec.setWidth_eq]
    simp only [hex_cons, hexPair, List.cons_append, List.nil_append, ofPairs, hhigh, hlow, ih, hbyte]

end Hex
