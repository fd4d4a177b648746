import UsbProxy.Lib.Bits
import UsbProxy.Lib.Codec

/-!
# Big-endian fields of the datagrams

`get16`, `get32`, `get64` and the `put`s of `click_protocol.h`, the same as `u32`, `u64`, `put32`
and `put64` of `move_protocol.h`.  A read past the end of the datagram is `0`; the parsers check
the length first.
-/

namespace UsbProxy

open Bits Codec

def byteAt (p : List Byte) (i : ℕ) : ℕ := (p.getD i 0).toNat

def get16 (p : List Byte) (i : ℕ) : ℕ := byteAt p i * 2 ^ 8 + byteAt p (i + 1)

def get32 (p : List Byte) (i : ℕ) : ℕ := get16 p i * 2 ^ 16 + get16 p (i + 2)

def get64 (p : List Byte) (i : ℕ) : ℕ := get32 p i * 2 ^ 32 + get32 p (i + 4)

/-- `i32` -/
def getI32 (p : List Byte) (i : ℕ) : ℤ :=
  if get32 p i ≤ 0x7fffffff then get32 p i else (get32 p i : ℤ) - 0x100000000

/-- `read_i16` -/
def getI16 (p : List Byte) (i : ℕ) : ℤ :=
  if get16 p i < 32768 then get16 p i else (get16 p i : ℤ) - 65536

/-- A signed byte, as the UPX1 handler reads wheel and pan. -/
def getI8 (p : List Byte) (i : ℕ) : ℤ :=
  if byteAt p i < 128 then byteAt p i else (byteAt p i : ℤ) - 256

def put8 (v : ℕ) : List Byte := [BitVec.ofNat 8 v]

def put16 (v : ℕ) : List Byte := put8 (v / 2 ^ 8) ++ put8 v

def put32 (v : ℕ) : List Byte := put16 (v / 2 ^ 16) ++ put16 v

def put64 (v : ℕ) : List Byte := put32 (v / 2 ^ 32) ++ put32 v

/-- `put32(uint32_t(value))` of a signed field. -/
def putI32 (v : ℤ) : List Byte := put32 (v % 2 ^ 32).toNat

/-- `zero`: the `n` bytes from `i` on. -/
def zeroBytes (p : List Byte) (i n : ℕ) : Bool := (List.range n).all fun k => byteAt p (i + k) == 0

/-- The bytes of an ASCII literal. -/
def ascii (s : String) : List Byte := s.toList.map fun c => BitVec.ofNat 8 c.toNat

/-- `!std::memcmp(p, tag, 4)` on a datagram of at least four bytes. -/
def hasTag (p : List Byte) (tag : String) : Bool := p.take 4 == ascii tag

/-! ### Reading and writing one field -/

theorem byteAt_lt (p : List Byte) (i : ℕ) : byteAt p i < 2 ^ 8 := (p.getD i 0).isLt

theorem get16_lt (p : List Byte) (i : ℕ) : get16 p i < 2 ^ 16 := by
  have h0 := byteAt_lt p i
  have h1 := byteAt_lt p (i + 1)
  unfold get16
  omega

theorem get32_lt (p : List Byte) (i : ℕ) : get32 p i < 2 ^ 32 := by
  have h0 := get16_lt p i
  have h1 := get16_lt p (i + 2)
  unfold get32
  omega

theorem get64_lt (p : List Byte) (i : ℕ) : get64 p i < 2 ^ 64 := by
  have h0 := get32_lt p i
  have h1 := get32_lt p (i + 4)
  unfold get64
  omega

theorem getI32_range (p : List Byte) (i : ℕ) : -2 ^ 31 ≤ getI32 p i ∧ getI32 p i < 2 ^ 31 := by
  have h := get32_lt p i
  unfold getI32
  split <;> omega

@[simp] theorem put8_length (v : ℕ) : (put8 v).length = 1 := rfl

@[simp] theorem put16_length (v : ℕ) : (put16 v).length = 2 := rfl

@[simp] theorem put32_length (v : ℕ) : (put32 v).length = 4 := rfl

@[simp] theorem put64_length (v : ℕ) : (put64 v).length = 8 := rfl

@[simp] theorem putI32_length (v : ℤ) : (putI32 v).length = 4 := rfl

/-! Writing what was read gives the bytes back. -/

theorem put8_byteAt {p : List Byte} {i : ℕ} (h : i + 1 ≤ p.length) :
    put8 (byteAt p i) = slice p i 1 := by
  rw [slice_one p (by omega) 0, put8, byteAt, BitVec.ofNat_toNat, BitVec.setWidth_eq]

theorem put16_get16 {p : List Byte} {i : ℕ} (h : i + 2 ≤ p.length) :
    put16 (get16 p i) = slice p i 2 := by
  have h0 : put8 (get16 p i / 2 ^ 8) = put8 (byteAt p i) := by
    congr 1
    have := byteAt_lt p (i + 1)
    unfold get16
    omega
  have h1 : put8 (get16 p i) = put8 (byteAt p (i + 1)) := by
    simp only [put8, List.cons.injEq, and_true, get16]
    apply BitVec.eq_of_toNat_eq
    simp only [BitVec.toNat_ofNat]
    omega
  rw [put16, h0, h1, put8_byteAt (by omega), put8_byteAt (by omega), slice_append]

theorem put32_get32 {p : List Byte} {i : ℕ} (h : i + 4 ≤ p.length) :
    put32 (get32 p i) = slice p i 4 := by
  have h0 : get32 p i / 2 ^ 16 = get16 p i := by
    have := get16_lt p (i + 2)
    unfold get32
    omega
  have h1 : put16 (get32 p i) = put16 (get16 p (i + 2)) := by
    simp only [put16, put8, get32, List.cons_append, List.nil_append, List.cons.injEq, and_true]
    constructor <;>
    · apply BitVec.eq_of_toNat_eq
      simp only [BitVec.toNat_ofNat]
      omega
  rw [put32, h0, h1, put16_get16 (by omega), put16_get16 (by omega), slice_append]

theorem put64_get64 {p : List Byte} {i : ℕ} (h : i + 8 ≤ p.length) :
    put64 (get64 p i) = slice p i 8 := by
  have h0 : get64 p i / 2 ^ 32 = get32 p i := by
    have := get32_lt p (i + 4)
    unfold get64
    omega
  have h1 : put32 (get64 p i) = put32 (get32 p (i + 4)) := by
    simp only [put32, put16, put8, get64, List.cons_append, List.nil_append, List.cons.injEq,
      and_true]
    refine ⟨?_, ?_, ?_, ?_⟩ <;>
    · apply BitVec.eq_of_toNat_eq
      simp only [BitVec.toNat_ofNat]
      omega
  rw [put64, h0, h1, put32_get32 (by omega), put32_get32 (by omega), slice_append]

theorem putI32_getI32 {p : List Byte} {i : ℕ} (h : i + 4 ≤ p.length) :
    putI32 (getI32 p i) = slice p i 4 := by
  have hback : (getI32 p i % 2 ^ 32).toNat = get32 p i := by
    have := get32_lt p i
    unfold getI32
    split <;> omega
  rw [putI32, hback, put32_get32 h]

theorem zeroBytes_slice {p : List Byte} {i n : ℕ} (hzero : zeroBytes p i n = true)
    (h : i + n ≤ p.length) : List.replicate n 0 = slice p i n := by
  refine List.ext_getElem (by simp [slice]; omega) fun k hk _ => ?_
  rw [List.length_replicate] at hk
  have hbyte := List.all_eq_true.mp hzero k (List.mem_range.mpr hk)
  have hin : i + k < p.length := by omega
  rw [beq_iff_eq, byteAt, List.getD_eq_getElem?_getD, List.getElem?_eq_getElem hin,
    Option.getD_some] at hbyte
  simp only [slice, List.getElem_replicate, List.getElem_take, List.getElem_drop]
  exact (BitVec.eq_of_toNat_eq hbyte).symm

theorem hasTag_slice {p : List Byte} {tag : String} (h : hasTag p tag = true) :
    ascii tag = slice p 0 4 := by
  rw [hasTag, beq_iff_eq] at h
  exact h.symm

theorem byteAt_slice {p : List Byte} {i v : ℕ} (h : slice p i 1 = put8 v) (hi : i + 1 ≤ p.length)
    (hv : v < 2 ^ 8) : byteAt p i = v := by
  rw [← put8_byteAt hi] at h
  have h := congrArg BitVec.toNat (List.singleton_inj.mp h)
  have hlt := byteAt_lt p i
  simp only [BitVec.toNat_ofNat] at h
  omega

theorem slice_zeroBytes {p : List Byte} {i n : ℕ} (h : slice p i n = List.replicate n 0) :
    zeroBytes p i n = true := by
  refine List.all_eq_true.mpr fun k hk => ?_
  rw [List.mem_range] at hk
  have hget := congrArg (·[k]?) h
  simp only [slice, List.getElem?_take_of_lt hk, List.getElem?_drop,
    List.getElem?_replicate_of_lt hk] at hget
  rw [beq_iff_eq, byteAt, List.getD_eq_getElem?_getD, hget]
  rfl

/-! Two values of a field's type with the same bytes are the same. -/

theorem put8_inj {a b : ℕ} (ha : a < 2 ^ 8) (hb : b < 2 ^ 8) (h : put8 a = put8 b) : a = b := by
  have h := congrArg BitVec.toNat (List.singleton_inj.mp h)
  simp only [BitVec.toNat_ofNat] at h
  omega

theorem put16_inj {a b : ℕ} (ha : a < 2 ^ 16) (hb : b < 2 ^ 16) (h : put16 a = put16 b) : a = b := by
  obtain ⟨h0, h1⟩ := List.append_inj h rfl
  have h0 := put8_inj (by omega) (by omega) h0
  have h1 := congrArg BitVec.toNat (List.singleton_inj.mp h1)
  simp only [BitVec.toNat_ofNat] at h1
  omega

theorem put32_inj {a b : ℕ} (ha : a < 2 ^ 32) (hb : b < 2 ^ 32) (h : put32 a = put32 b) : a = b := by
  obtain ⟨h0, h1⟩ := List.append_inj h rfl
  have h0 := put16_inj (by omega) (by omega) h0
  have hmod (v : ℕ) : put16 v = put16 (v % 2 ^ 16) := by
    simp only [put16, put8, List.cons_append, List.nil_append, List.cons.injEq, and_true]
    constructor <;>
    · apply BitVec.eq_of_toNat_eq
      simp only [BitVec.toNat_ofNat]
      omega
  rw [hmod a, hmod b] at h1
  have h1 := put16_inj (Nat.mod_lt _ (by norm_num)) (Nat.mod_lt _ (by norm_num)) h1
  omega

theorem put64_inj {a b : ℕ} (ha : a < 2 ^ 64) (hb : b < 2 ^ 64) (h : put64 a = put64 b) : a = b := by
  obtain ⟨h0, h1⟩ := List.append_inj h rfl
  have h0 := put32_inj (by omega) (by omega) h0
  have hmod (v : ℕ) : put32 v = put32 (v % 2 ^ 32) := by
    simp only [put32, put16, put8, List.cons_append, List.nil_append, List.cons.injEq, and_true]
    refine ⟨?_, ?_, ?_, ?_⟩ <;>
    · apply BitVec.eq_of_toNat_eq
      simp only [BitVec.toNat_ofNat]
      omega
  rw [hmod a, hmod b] at h1
  have h1 := put32_inj (Nat.mod_lt _ (by norm_num)) (Nat.mod_lt _ (by norm_num)) h1
  omega

theorem putI32_inj {a b : ℤ} (ha : -2 ^ 31 ≤ a ∧ a < 2 ^ 31) (hb : -2 ^ 31 ≤ b ∧ b < 2 ^ 31)
    (h : putI32 a = putI32 b) : a = b := by
  have h := put32_inj (by omega) (by omega) h
  omega

end UsbProxy
