import UsbProxy.Hid.WellFormed

/-!
# Reading what was written

A field reads back the value written to it, and keeps it under writes to fields apart from it.
`writes` is a run of such writes, which `encode` and `apply_known_fields` are.
-/

namespace UsbProxy

open Bits

namespace HidField

/-- The field lies inside a buffer of this length. -/
def Inside (f : HidField) (length : ℕ) : Prop := f.bits ≠ 0 → f.offset + f.bits ≤ 8 * length

/-- The field can take the value; an absent field takes zero. -/
def Takes (f : HidField) (value : ℤ) : Prop :=
  if f.bits = 0 then value = 0 else f.minimum ≤ value ∧ value ≤ f.maximum

instance (f : HidField) (value : ℤ) : Decidable (f.Takes value) :=
  inferInstanceAs (Decidable
    (if f.bits = 0 then value = 0 else f.minimum ≤ value ∧ value ≤ f.maximum))

variable {f g : HidField} {p q : List Byte} {value : ℤ}

theorem put_takes (h : f.Takes value) : (f.put p value).2 = true := by
  unfold Takes at h
  unfold put
  split
  · rename_i hbits
    rw [if_pos hbits] at h
    simp [h]
  · rename_i hbits
    rw [if_neg hbits] at h
    rw [if_neg (by omega)]

theorem write_refused (hbits : f.bits ≠ 0) (h : ¬ f.Takes value) : f.write p value = p := by
  unfold Takes at h
  rw [if_neg hbits] at h
  unfold write put
  rw [if_neg hbits, if_pos (by omega)]

/-- A write reaches the field's bits only. -/
theorem bit_write (hin : f.Inside p.length) (j : ℕ) (h : ¬ f.Covers j) :
    bit (f.write p value) j = bit p j := by
  unfold write put
  split
  · rfl
  · rename_i hbits
    split
    · rfl
    · dsimp only
      rw [bit_writeBits _ _ _ _ (hin hbits)]
      exact if_neg h

/-- A field is read from its bits. -/
theorem get_congr (h : ∀ j, f.Covers j → bit p j = bit q j) : f.get p = f.get q := by
  unfold get
  rw [readBits_congr fun j h1 h2 => h j ⟨h1, h2⟩]

theorem readBits_write (hin : f.Inside p.length) (hwf : f.Wf) (hbits : f.bits ≠ 0)
    (h : f.Takes value) :
    readBits (f.write p value) f.offset f.bits = (value % 2 ^ f.bits).toNat := by
  unfold Takes at h
  rw [if_neg hbits] at h
  have hle := hwf.bits
  have hpos : (0 : ℤ) < 2 ^ f.bits := by positivity
  have hlt : (value % 2 ^ f.bits).toNat < 2 ^ f.bits := by
    have h1 := Int.emod_nonneg value hpos.ne'
    have h2 := Int.emod_lt_of_pos value hpos
    zify
    rw [Int.toNat_of_nonneg h1]
    exact_mod_cast h2
  refine readBits_eq_of_testBit hlt fun i hi => ?_
  unfold write put
  rw [if_neg hbits, if_neg (by omega)]
  dsimp only
  rw [bit_writeBits _ _ _ _ (hin hbits), if_pos (by omega), Nat.add_sub_cancel_left, ← BitVec.testBit_toNat,
    BitVec.toNat_ofInt]
  have hmod : (value % 2 ^ f.bits).toNat = (value % ((2 ^ 32 : ℕ) : ℤ)).toNat % 2 ^ f.bits := by
    have hdvd : (2 : ℤ) ^ f.bits ∣ 2 ^ 32 := pow_dvd_pow 2 (by omega)
    have h1 : 0 ≤ value % 2 ^ 32 := Int.emod_nonneg value (by norm_num)
    zify
    rw [Int.toNat_of_nonneg (Int.emod_nonneg value hpos.ne'), Int.toNat_of_nonneg h1,
      Int.emod_emod_of_dvd value hdvd]
  rw [hmod, Nat.testBit_mod_two_pow]
  simp [hi]

/-- **A field reads back what was written.** -/
theorem get_write (hin : f.Inside p.length) (hwf : f.Wf) (h : f.Takes value) :
    f.get (f.write p value) = value := by
  by_cases hbits : f.bits = 0
  · rw [Takes, if_pos hbits] at h
    rw [get, if_pos hbits, h]
  have hread := readBits_write hin hwf hbits h
  rw [Takes, if_neg hbits] at h
  unfold get
  rw [if_neg hbits, hread]
  dsimp only
  have hhalf : (2 : ℤ) ^ f.bits = 2 * 2 ^ (f.bits - 1) := by
    rw [← pow_succ']
    congr 1
    omega
  have hhalf' : (2 : ℕ) ^ f.bits = 2 * 2 ^ (f.bits - 1) := by
    rw [← pow_succ']
    congr 1
    omega
  have hcast : ((2 ^ (f.bits - 1) : ℕ) : ℤ) = 2 ^ (f.bits - 1) := by norm_cast
  rcases lt_or_ge value 0 with hneg | hnonneg
  · -- a negative value has the sign bit set
    obtain ⟨-, hlower, -⟩ := hwf.signed (lt_of_le_of_lt h.1 hneg)
    have hmod : value % 2 ^ f.bits = value + 2 ^ f.bits := by
      rw [← Int.add_emod_right, Int.emod_eq_of_lt (by omega) (by omega)]
    have hsign : (value % 2 ^ f.bits).toNat.testBit (f.bits - 1) = true := by
      rw [Nat.testBit_eq_decide_div_mod_eq, decide_eq_true_eq]
      have hone : (value % 2 ^ f.bits).toNat / 2 ^ (f.bits - 1) = 1 := by
        rw [hmod]
        exact Nat.div_eq_of_lt_le (by omega) (by omega)
      rw [hone]
    rw [if_pos ⟨lt_of_le_of_lt h.1 hneg, hsign⟩, hmod, Int.toNat_of_nonneg (by omega)]
    omega
  · rcases lt_or_eq_of_le hwf.minimum with hneg | hzero
    · obtain ⟨-, -, hupper⟩ := hwf.signed hneg
      have hmod : value % 2 ^ f.bits = value := Int.emod_eq_of_lt hnonneg (by omega)
      have hsign : (value % 2 ^ f.bits).toNat.testBit (f.bits - 1) = false :=
        Nat.testBit_lt_two_pow (by rw [hmod]; omega)
      rw [hsign, hmod, if_neg (by simp), Int.toNat_of_nonneg hnonneg]
    · have hupper := hwf.unsigned hzero
      have hmod : value % 2 ^ f.bits = value := Int.emod_eq_of_lt hnonneg (by omega)
      rw [if_neg (by omega), hmod, Int.toNat_of_nonneg hnonneg]

theorem takes_zero (hwf : f.Wf) : f.Takes 0 := by
  unfold Takes
  split
  · rfl
  · exact ⟨hwf.minimum, hwf.maximum⟩

end HidField

/-! ### Several writes -/

/-- Write a value to each field, in order. -/
def writes (l : List (HidField × ℤ)) (p : List Byte) : List Byte :=
  l.foldl (fun p w => w.1.write p w.2) p

variable {l l' : List (HidField × ℤ)} {p : List Byte} {f : HidField} {value : ℤ}

@[simp] theorem writes_length (l : List (HidField × ℤ)) (p : List Byte) :
    (writes l p).length = p.length := by
  unfold writes
  induction l generalizing p with
  | nil => rfl
  | cons w l ih => rw [List.foldl_cons, ih, HidField.write_length]

theorem writes_append (l l' : List (HidField × ℤ)) (p : List Byte) :
    writes (l ++ l') p = writes l' (writes l p) := List.foldl_append

theorem bit_writes (hin : ∀ w ∈ l, w.1.Inside p.length) {j : ℕ} (h : ∀ w ∈ l, ¬ w.1.Covers j) :
    bit (writes l p) j = bit p j := by
  induction l generalizing p with
  | nil => rfl
  | cons w l ih =>
    have hw : bit (w.1.write p w.2) j = bit p j :=
      HidField.bit_write (hin w List.mem_cons_self) j (h w List.mem_cons_self)
    have hrest := ih (p := w.1.write p w.2)
      (fun v hv => by rw [HidField.write_length]; exact hin v (List.mem_cons_of_mem _ hv))
      fun v hv => h v (List.mem_cons_of_mem _ hv)
    exact hrest.trans hw

theorem get_writes_apart (hin : ∀ w ∈ l, w.1.Inside p.length) (h : ∀ w ∈ l, w.1.Apart f) :
    f.get (writes l p) = f.get p :=
  HidField.get_congr fun j hj => bit_writes hin fun w hw hcovers => h w hw j hcovers hj

/-- A field keeps its value under the writes after it, which are to fields apart from it. -/
theorem get_writes (hwf : f.Wf) (hin : ∀ w ∈ l ++ (f, value) :: l', w.1.Inside p.length)
    (h : f.Takes value) (hapart : ∀ w ∈ l', w.1.Apart f) :
    f.get (writes (l ++ (f, value) :: l') p) = value := by
  have hself : f.Inside (writes l p).length := by
    rw [writes_length]
    exact hin (f, value) (by simp)
  have hsplit : writes (l ++ (f, value) :: l') p = writes l' (f.write (writes l p) value) := by
    rw [writes_append]
    rfl
  rw [hsplit, get_writes_apart _ hapart, HidField.get_write hself hwf h]
  intro w hw
  rw [HidField.write_length, writes_length]
  exact hin w (by simp [hw])

/-! ### Button masks -/

theorem buttonBit_getLsbD (button k : ℕ) :
    (buttonBit button).getLsbD k = (decide (k < 8) && decide (k = button - 1)) := by
  unfold buttonBit
  simp only [BitVec.getLsbD_shiftLeft, BitVec.getLsbD_one]
  by_cases hk : k < 8
  · by_cases he : k = button - 1
    · subst he
      simp [hk]
    · have hne : ¬ (¬ k < button - 1 ∧ k - (button - 1) = 0) := by omega
      by_cases hlt : k < button - 1
      · simp [hk, he, hlt]
      · simp [hk, he, hlt]
        omega
  · simp [hk]

/-- The bits of a mask built from chosen buttons. -/
theorem foldMask_getLsbD (buttons : List (ℕ × HidField)) (chosen : ℕ × HidField → Prop)
    [DecidablePred chosen] (mask : Mask) (k : ℕ) :
    (buttons.foldl (fun v b => if chosen b then v ||| buttonBit b.1 else v) mask).getLsbD k = true ↔
      mask.getLsbD k = true ∨ k < 8 ∧ ∃ b ∈ buttons, chosen b ∧ k = b.1 - 1 := by
  induction buttons generalizing mask with
  | nil => simp
  | cons b buttons ih =>
    rw [List.foldl_cons, ih]
    by_cases hb : chosen b
    · rw [if_pos hb, BitVec.getLsbD_or, Bool.or_eq_true, buttonBit_getLsbD]
      simp only [Bool.and_eq_true, decide_eq_true_eq, List.mem_cons, exists_eq_or_imp, hb,
        true_and]
      tauto
    · rw [if_neg hb]
      simp only [List.mem_cons, exists_eq_or_imp, hb, false_and, false_or]

namespace MouseProfile

theorem buttonMask_getLsbD (m : MouseProfile) (p : List Byte) (k : ℕ) :
    (m.buttonMask p).getLsbD k = true ↔
      k < 8 ∧ ∃ b ∈ m.buttons, b.2.get p ≠ 0 ∧ k = b.1 - 1 := by
  rw [buttonMask, foldMask_getLsbD m.buttons (fun b => b.2.get p ≠ 0)]
  simp

theorem supported_getLsbD (m : MouseProfile) (k : ℕ) :
    m.supported.getLsbD k = true ↔ k < 8 ∧ ∃ b ∈ m.buttons, k = b.1 - 1 := by
  have h := foldMask_getLsbD m.buttons (fun _ => True) 0 k
  simpa [supported] using h

/-- The writes of `put_buttons`. -/
def buttonWrites (m : MouseProfile) (mask : Mask) : List (HidField × ℤ) :=
  m.buttons.map fun b => (b.2, if mask.getLsbD (b.1 - 1) then 1 else 0)

theorem putButtons_writes (m : MouseProfile) (p : List Byte) (mask : Mask) :
    m.putButtons p mask = writes (m.buttonWrites mask) p := by
  rw [putButtons, writes, buttonWrites, List.foldl_map]

theorem zeroRelative_writes (m : MouseProfile) (p : List Byte) :
    m.zeroRelative p = writes (m.relative.map fun f => (f, 0)) p := by
  rw [zeroRelative, writes, List.foldl_map]

end MouseProfile

end UsbProxy
