import UsbProxy.Lib.Codec

/-!
# Packed binary data

A format is a list of fields of fixed width, big-endian and without alignment; a signed field is in
two's complement.  `pack` writes the values of a format and fails on a value out of a field's range,
`unpack` reads them back.
-/

namespace Struct

open Codec

/-- The bytes of a number, the most significant first. -/
def bigEndian : ℕ → ℕ → List (BitVec 8)
  | 0, _ => []
  | n + 1, v => bigEndian n (v / 256) ++ [BitVec.ofNat 8 v]

/-- The number that bytes spell. -/
def number (l : List (BitVec 8)) : ℕ := l.foldl (fun v b => v * 256 + b.toNat) 0

@[simp] theorem bigEndian_length (n v : ℕ) : (bigEndian n v).length = n := by
  induction n generalizing v with
  | zero => rfl
  | succ n ih => rw [bigEndian, List.length_append, ih, List.length_singleton]

theorem number_concat (l : List (BitVec 8)) (b : BitVec 8) :
    number (l ++ [b]) = number l * 256 + b.toNat := by
  rw [number, List.foldl_append]
  rfl

theorem number_bigEndian (n v : ℕ) : number (bigEndian n v) = v % 256 ^ n := by
  induction n generalizing v with
  | zero => simp [bigEndian, number, Nat.mod_one]
  | succ n ih =>
    have hpow : 256 ^ (n + 1) = 256 * 256 ^ n := Nat.pow_succ'
    rw [bigEndian, number_concat, ih, BitVec.toNat_ofNat, hpow, Nat.mod_mul]
    omega

/-! ### Fields -/

inductive Field
  /-- `ns` -/
  | bytes (n : ℕ)
  /-- `nx` -/
  | pad (n : ℕ)
  /-- `B`, `H`, `I`, `Q` -/
  | unsigned (n : ℕ)
  /-- `i` -/
  | signed (n : ℕ)
deriving DecidableEq, Repr

inductive Value
  | bytes (b : List (BitVec 8))
  | int (n : ℤ)
deriving DecidableEq, Repr

def Field.width : Field → ℕ
  | .bytes n | .pad n | .unsigned n | .signed n => n

def size (fields : List Field) : ℕ := (fields.map Field.width).sum

/-- The values a field of `n` bytes holds. -/
def half (n : ℕ) : ℤ := (256 ^ n : ℕ) / 2

/-- The number in two's complement. -/
def toSigned (n v : ℕ) : ℤ := if (v : ℤ) < half n then v else v - (256 ^ n : ℕ)

/-- `struct.pack`; `none` is its error. -/
def pack : List Field → List Value → Option (List (BitVec 8))
  | [], [] => some []
  | .pad n :: fields, values => (pack fields values).map (List.replicate n 0 ++ ·)
  | .bytes n :: fields, .bytes b :: values =>
    (pack fields values).map (((b.take n) ++ List.replicate (n - b.length) 0) ++ ·)
  | .unsigned n :: fields, .int v :: values =>
    if 0 ≤ v ∧ v < (256 ^ n : ℕ) then (pack fields values).map (bigEndian n v.toNat ++ ·)
    else none
  | .signed n :: fields, .int v :: values =>
    if -half n ≤ v ∧ v < half n then
      (pack fields values).map (bigEndian n (v % (256 ^ n : ℕ)).toNat ++ ·)
    else none
  | _, _ => none

/-- `struct.unpack` on the bytes in front. -/
def unpack : List Field → List (BitVec 8) → List Value
  | [], _ => []
  | .pad n :: fields, p => unpack fields (p.drop n)
  | .bytes n :: fields, p => .bytes (p.take n) :: unpack fields (p.drop n)
  | .unsigned n :: fields, p => .int (number (p.take n)) :: unpack fields (p.drop n)
  | .signed n :: fields, p => .int (toSigned n (number (p.take n))) :: unpack fields (p.drop n)

/-- A number that was packed stands in front. -/
theorem pack_unsigned {fields : List Field} {values : List Value} {n : ℕ} {v : ℤ}
    {p : List (BitVec 8)} (h : pack (.unsigned n :: fields) (.int v :: values) = some p) :
    ∃ q, pack fields values = some q ∧ p = bigEndian n v.toNat ++ q := by
  unfold pack at h
  split at h
  · obtain ⟨q, hq, rfl⟩ := Option.map_eq_some_iff.mp h
    exact ⟨q, hq, rfl⟩
  · cases h

/-- The values are those of the fields, and in their ranges. -/
def Fits : List Field → List Value → Prop
  | [], [] => True
  | .pad _ :: fields, values => Fits fields values
  | .bytes _ :: fields, .bytes _ :: values => Fits fields values
  | .unsigned n :: fields, .int v :: values => (0 ≤ v ∧ v < (256 ^ n : ℕ)) ∧ Fits fields values
  | .signed n :: fields, .int v :: values => (-half n ≤ v ∧ v < half n) ∧ Fits fields values
  | _, _ => False

/-- **What can be packed.** -/
theorem exists_pack_iff {fields : List Field} {values : List Value} :
    (∃ p, pack fields values = some p) ↔ Fits fields values := by
  fun_induction pack fields values with
  | case1 => exact ⟨fun _ => trivial, fun _ => ⟨[], rfl⟩⟩
  | case2 n fields values ih => simpa [Fits] using ih
  | case3 n fields b values ih => simpa [Fits] using ih
  | case4 n fields v values hrange ih =>
    rw [Fits, ← ih]
    simpa using fun p hp => hrange
  | case5 n fields v values hrange =>
    rw [Fits]
    exact iff_of_false (by simp) fun h => hrange h.1
  | case6 n fields v values hrange ih =>
    rw [Fits, ← ih]
    simpa using fun p hp => hrange
  | case7 n fields v values hrange =>
    rw [Fits]
    exact iff_of_false (by simp) fun h => hrange h.1
  | case8 fields values hnil hpad hbytes hunsigned hsigned =>
    refine iff_of_false (by simp) fun h => ?_
    unfold Fits at h
    split at h
    · exact hnil rfl rfl
    · exact hpad _ _ rfl
    · exact hbytes _ _ _ _ rfl rfl
    · exact hunsigned _ _ _ _ rfl rfl
    · exact hsigned _ _ _ _ rfl rfl
    · exact h

theorem pack_length {fields : List Field} {values : List Value} {p : List (BitVec 8)}
    (h : pack fields values = some p) : p.length = size fields := by
  fun_induction pack generalizing p with
  | case1 =>
    cases h
    rfl
  | case2 n fields values ih =>
    obtain ⟨q, hq, rfl⟩ := Option.map_eq_some_iff.mp h
    simp [size, Field.width, ih hq]
  | case3 n fields b values ih =>
    obtain ⟨q, hq, rfl⟩ := Option.map_eq_some_iff.mp h
    simp [size, Field.width, ih hq]
    omega
  | case4 n fields v values hrange ih =>
    obtain ⟨q, hq, rfl⟩ := Option.map_eq_some_iff.mp h
    simp [size, Field.width, ih hq]
  | case5 => cases h
  | case6 n fields v values hrange ih =>
    obtain ⟨q, hq, rfl⟩ := Option.map_eq_some_iff.mp h
    simp [size, Field.width, ih hq]
  | case7 => cases h
  | case8 => cases h

/-- Padding at the end is zero. -/
theorem pack_concat_pad {fields : List Field} {values : List Value} {n : ℕ} :
    pack (fields ++ [.pad n]) values =
      (pack fields values).map (· ++ List.replicate n 0) := by
  fun_induction pack fields values with
  | case1 => simp [pack]
  | case2 m fields values ih => simp [pack, ih, Function.comp_def]
  | case3 m fields b values ih => simp [pack, ih, Function.comp_def]
  | case4 m fields v values hrange ih =>
    rw [List.cons_append, pack, if_pos hrange, ih]
    simp [Function.comp_def]
  | case5 m fields v values hrange => rw [List.cons_append, pack, if_neg hrange]; rfl
  | case6 m fields v values hrange ih =>
    rw [List.cons_append, pack, if_pos hrange, ih]
    simp [Function.comp_def]
  | case7 m fields v values hrange => rw [List.cons_append, pack, if_neg hrange]; rfl
  | case8 fields values hnil hpad hbytes hunsigned hsigned =>
    rcases fields with _ | ⟨f, fields⟩
    · rcases values with _ | ⟨v, values⟩
      · exact (hnil rfl rfl).elim
      · rfl
    · rcases values with _ | ⟨v, values⟩
      · cases f with
        | pad m => exact (hpad m fields rfl).elim
        | bytes | unsigned | signed => rfl
      · cases f with
        | pad m => exact (hpad m fields rfl).elim
        | bytes m => cases v with
          | bytes b => exact (hbytes m fields b values rfl rfl).elim
          | int v => rfl
        | unsigned m => cases v with
          | bytes b => rfl
          | int v => exact (hunsigned m fields v values rfl rfl).elim
        | signed m => cases v with
          | bytes b => rfl
          | int v => exact (hsigned m fields v values rfl rfl).elim

/-- Byte strings as long as their fields. -/
def Exact : List Field → List Value → Prop
  | .bytes n :: fields, .bytes b :: values => b.length = n ∧ Exact fields values
  | .pad _ :: fields, values => Exact fields values
  | _ :: fields, _ :: values => Exact fields values
  | _, _ => True

theorem toSigned_mod {n : ℕ} {v : ℤ} (h : -half n ≤ v ∧ v < half n) :
    toSigned n ((v % (256 ^ n : ℕ)).toNat % 256 ^ n) = v := by
  have hpos : 0 < 256 ^ n := Nat.pow_pos (by omega)
  unfold toSigned half at *
  generalize 256 ^ n = k at *
  have hlow := Int.emod_nonneg v (b := k) (by omega)
  have hhigh := Int.emod_lt_of_pos v (b := k) (by omega)
  rw [Nat.mod_eq_of_lt (by omega), Int.toNat_of_nonneg hlow]
  by_cases hv : 0 ≤ v
  · rw [Int.emod_eq_of_lt hv (by omega), if_pos h.2]
  · have hwrap : v % k = v + k := by
      rw [← Int.add_emod_right, Int.emod_eq_of_lt (by omega) (by omega)]
    rw [hwrap, if_neg (by omega)]
    omega

/-- **What is read is what was packed.** -/
theorem unpack_pack {fields : List Field} {values : List Value} {p : List (BitVec 8)}
    (h : pack fields values = some p) (hexact : Exact fields values) : unpack fields p = values := by
  induction fields generalizing values p with
  | nil =>
    cases values with
    | nil => rfl
    | cons v values => cases h
  | cons f fields ih =>
    cases f with
    | pad n =>
      obtain ⟨q, hq, rfl⟩ := Option.map_eq_some_iff.mp h
      rw [unpack, List.drop_left' (by simp), ih hq hexact]
    | bytes n =>
      cases values with
      | nil => cases h
      | cons v values =>
        cases v with
        | int v => cases h
        | bytes b =>
          obtain ⟨q, hq, rfl⟩ := Option.map_eq_some_iff.mp h
          obtain ⟨rfl, hexact⟩ := hexact
          have hb : b.take b.length ++ List.replicate (b.length - b.length) 0 = b := by simp
          rw [hb, unpack, List.take_left, List.drop_left, ih hq hexact]
    | unsigned n =>
      cases values with
      | nil => cases h
      | cons v values =>
        cases v with
        | bytes b => cases h
        | int v =>
          unfold pack at h
          split at h
          · rename_i hrange
            obtain ⟨q, hq, rfl⟩ := Option.map_eq_some_iff.mp h
            have hv : ((v.toNat % 256 ^ n : ℕ) : ℤ) = v := by
              rw [Nat.mod_eq_of_lt (by omega)]
              omega
            rw [unpack, List.take_left' (by simp), List.drop_left' (by simp), number_bigEndian, hv,
              ih hq hexact]
          · cases h
    | signed n =>
      cases values with
      | nil => cases h
      | cons v values =>
        cases v with
        | bytes b => cases h
        | int v =>
          unfold pack at h
          split at h
          · rename_i hrange
            obtain ⟨q, hq, rfl⟩ := Option.map_eq_some_iff.mp h
            rw [unpack, List.take_left' (by simp), List.drop_left' (by simp), number_bigEndian,
              toSigned_mod hrange, ih hq hexact]
          · cases h

end Struct
