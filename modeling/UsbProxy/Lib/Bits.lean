import Mathlib.Data.Nat.Bitwise
import Mathlib.Tactic

/-!
# Bit fields in byte buffers

A buffer is a list of bytes.  Bit `i` of a buffer is bit `i % 8` of byte `i / 8`.  `readBits` and
`writeBits` walk a run of consecutive bits, lowest first.  Nothing here knows what the bits mean.
-/

namespace Bits

abbrev Byte := BitVec 8

/-- Bit `i` of the buffer; bits past the end read as `false`. -/
def bit (p : List Byte) (i : ℕ) : Bool :=
  (p.getD (i / 8) 0).getLsbD (i % 8)

/-- Overwrite bit `i` and nothing else. -/
def setBit (p : List Byte) (i : ℕ) (b : Bool) : List Byte :=
  p.modify (i / 8) fun byte =>
    (byte &&& ~~~(1#8 <<< (i % 8))) ||| (if b then 1#8 <<< (i % 8) else 0#8)

/-- The `n` bits from `off` on, read as an unsigned number. -/
def readBits (p : List Byte) (off : ℕ) : ℕ → ℕ
  | 0 => 0
  | n + 1 => readBits p off n ||| ((bit p (off + n)).toNat <<< n)

/-- Write `g 0, …, g (n - 1)` to the `n` bits from `off` on. -/
def writeBits (p : List Byte) (off : ℕ) (g : ℕ → Bool) : ℕ → List Byte
  | 0 => p
  | n + 1 => setBit (writeBits p off g n) (off + n) (g n)

@[simp] theorem setBit_length (p : List Byte) (i : ℕ) (b : Bool) :
    (setBit p i b).length = p.length := by
  simp [setBit]

@[simp] theorem writeBits_length (p : List Byte) (off : ℕ) (g : ℕ → Bool) (n : ℕ) :
    (writeBits p off g n).length = p.length := by
  induction n with
  | zero => rfl
  | succ n ih => simp [writeBits, ih]

theorem setByte_getLsbD (byte : Byte) (b : Bool) {k j : ℕ} (hk : k < 8) (hj : j < 8) :
    ((byte &&& ~~~(1#8 <<< k)) ||| (if b then 1#8 <<< k else 0#8)).getLsbD j =
      if j = k then b else byte.getLsbD j := by
  cases b <;> by_cases h : j = k
  · subst h; simp
  · have h1 : ¬ (j - k = 0 ∧ k ≤ j) := by omega
    by_cases h2 : j < k
    · simp [h, hj, h2]
    · simp [h, hj, h2]
      omega
  · subst h; simp [hj]
  · by_cases h2 : j < k
    · simp [h, hj, h2]
    · have h3 : j - k ≠ 0 := by omega
      simp [h, hj, h2, h3]

theorem bit_setBit (p : List Byte) (i j : ℕ) (b : Bool) (hi : i < 8 * p.length) :
    bit (setBit p i b) j = if j = i then b else bit p j := by
  have hlen : i / 8 < p.length := by omega
  unfold bit setBit
  rw [List.getD_eq_getElem?_getD, List.getElem?_modify]
  by_cases hq : i / 8 = j / 8
  · have hj : j / 8 < p.length := by omega
    simp only [if_pos hq, List.getElem?_eq_getElem hj, Option.map_eq_map, Option.map_some,
      Option.getD_some]
    rw [setByte_getLsbD _ _ (Nat.mod_lt _ (by norm_num)) (Nat.mod_lt _ (by norm_num))]
    by_cases hji : j = i
    · subst hji; simp
    · have hne : ¬ j % 8 = i % 8 := by omega
      rw [if_neg hne, if_neg hji, List.getD_eq_getElem?_getD, List.getElem?_eq_getElem hj]
      rfl
  · have hji : j ≠ i := by rintro rfl; exact hq rfl
    simp [if_neg hq, if_neg hji, List.getD_eq_getElem?_getD]

theorem bit_writeBits (p : List Byte) (off : ℕ) (g : ℕ → Bool) (n : ℕ)
    (h : off + n ≤ 8 * p.length) (j : ℕ) :
    bit (writeBits p off g n) j = if off ≤ j ∧ j < off + n then g (j - off) else bit p j := by
  induction n with
  | zero =>
    have : ¬ (off ≤ j ∧ j < off + 0) := by omega
    rw [if_neg this]; rfl
  | succ n ih =>
    rw [writeBits, bit_setBit _ _ _ _ (by rw [writeBits_length]; omega), ih (by omega)]
    by_cases hj : j = off + n
    · subst hj
      rw [if_pos rfl, if_pos (by omega)]
      congr 1; omega
    · rw [if_neg hj]
      by_cases hin : off ≤ j ∧ j < off + n
      · rw [if_pos hin, if_pos (by omega)]
      · rw [if_neg hin, if_neg (by omega)]

theorem testBit_readBits (p : List Byte) (off n i : ℕ) :
    (readBits p off n).testBit i = (decide (i < n) && bit p (off + i)) := by
  induction n with
  | zero => simp [readBits]
  | succ n ih =>
    rw [readBits, Nat.testBit_or, ih, Nat.testBit_shiftLeft]
    rcases lt_trichotomy i n with h | h | h
    · have h1 : ¬ n ≤ i := by omega
      have h2 : i < n + 1 := by omega
      simp [h, h1, h2]
    · subst h; cases bit p (off + i) <;> simp
    · have h1 : ¬ i < n := by omega
      have h2 : ¬ i < n + 1 := by omega
      have hpow : 2 ^ 1 ≤ 2 ^ (i - n) := Nat.pow_le_pow_right (by norm_num) (by omega)
      have h3 : (bit p (off + n)).toNat.testBit (i - n) = false :=
        Nat.testBit_lt_two_pow (lt_of_lt_of_le (Bool.toNat_lt _) hpow)
      simp [h1, h2, h3]

theorem readBits_lt (p : List Byte) (off n : ℕ) : readBits p off n < 2 ^ n := by
  refine Nat.lt_pow_two_of_testBit _ fun i hi => ?_
  have h : ¬ i < n := by omega
  rw [testBit_readBits]; simp [h]

/-- A run of bits is determined by its bits. -/
theorem readBits_eq_of_testBit {p : List Byte} {off n v : ℕ} (hv : v < 2 ^ n)
    (h : ∀ i < n, bit p (off + i) = v.testBit i) : readBits p off n = v := by
  refine Nat.eq_of_testBit_eq fun i => ?_
  rw [testBit_readBits]
  by_cases hi : i < n
  · simp [hi, h i hi]
  · have : v.testBit i = false :=
      Nat.testBit_lt_two_pow (lt_of_lt_of_le hv (Nat.pow_le_pow_right (by norm_num) (by omega)))
    simp [hi, this]

theorem readBits_congr {p q : List Byte} {off n : ℕ}
    (h : ∀ j, off ≤ j → j < off + n → bit p j = bit q j) :
    readBits p off n = readBits q off n := by
  induction n with
  | zero => rfl
  | succ n ih =>
    rw [readBits, readBits, ih fun j h1 h2 => h j h1 (by omega), h (off + n) (by omega) (by omega)]

/-- Past the end every bit is clear. -/
theorem bit_past {p : List Byte} {i : ℕ} (h : 8 * p.length ≤ i) : bit p i = false := by
  have hlen : p.length ≤ i / 8 := by omega
  rw [bit, List.getD_eq_getElem?_getD, List.getElem?_eq_none hlen, Option.getD_none]
  exact BitVec.getLsbD_zero

/-- Clearing a bit needs no room. -/
theorem bit_setBit_false (p : List Byte) (i j : ℕ) :
    bit (setBit p i false) j = if j = i then false else bit p j := by
  by_cases hi : i < 8 * p.length
  · exact bit_setBit p i j false hi
  · rw [not_lt] at hi
    have hsame : setBit p i false = p := by
      rw [setBit, List.modify_eq_self (by omega)]
    rw [hsame]
    split
    · rename_i hj
      rw [hj, bit_past hi]
    · rfl

theorem bit_writeBits_false (p : List Byte) (off n j : ℕ) :
    bit (writeBits p off (fun _ => false) n) j =
      if off ≤ j ∧ j < off + n then false else bit p j := by
  induction n with
  | zero =>
    rw [if_neg (by omega)]
    rfl
  | succ n ih =>
    rw [writeBits, bit_setBit_false, ih]
    by_cases hj : j = off + n
    · rw [if_pos hj, if_pos (by omega)]
    · rw [if_neg hj]
      by_cases hin : off ≤ j ∧ j < off + n
      · rw [if_pos hin, if_pos (by omega)]
      · rw [if_neg hin, if_neg (by omega)]

/-- The second buffer has no bit that the first has not. -/
def Clears (p q : List Byte) : Prop := ∀ j, bit q j = true → bit p j = true

theorem Clears.refl (p : List Byte) : Clears p p := fun _ h => h

theorem Clears.trans {p q r : List Byte} (h : Clears p q) (h' : Clears q r) : Clears p r :=
  fun j hj => h j (h' j hj)

theorem writeBits_clears (p : List Byte) (off n : ℕ) :
    Clears p (writeBits p off (fun _ => false) n) := by
  intro j hj
  rw [bit_writeBits_false] at hj
  split at hj
  · cases hj
  · exact hj

/-- Two buffers of one length with the same bits are equal. -/
theorem ext_bit {p q : List Byte} (hlen : p.length = q.length)
    (h : ∀ j < 8 * p.length, bit p j = bit q j) : p = q := by
  refine List.ext_getElem hlen fun i h1 h2 => ?_
  refine BitVec.eq_of_getLsbD_eq fun k hk => ?_
  have := h (8 * i + k) (by omega)
  unfold bit at this
  rw [show (8 * i + k) / 8 = i by omega, show (8 * i + k) % 8 = k by omega] at this
  simpa [List.getD_eq_getElem?_getD, h1, h2] using this

end Bits
