import UsbProxy.Hid.RoundTrip

/-!
# Reports without motion

A report is still when every relative field of its layout is zero.  Writing zeros only clears bits,
so a report stays still under them, whatever the layout they are written for and however long the
report is.
-/

namespace UsbProxy

open Bits

namespace HidField

variable {f : HidField} {p : List Byte}

theorem write_zero (p : List Byte) :
    f.write p 0 = p ∨ f.write p 0 = writeBits p f.offset (fun _ => false) f.bits := by
  unfold write put
  split
  · exact .inl rfl
  · split
    · exact .inl rfl
    · refine .inr ?_
      have hzero : (fun i => (BitVec.ofInt 32 0).getLsbD i) = fun _ => false := by
        funext i
        simp
      rw [hzero]

theorem write_zero_clears (f : HidField) (p : List Byte) : Clears p (f.write p 0) := by
  rcases write_zero (f := f) p with h | h
  · rw [h]
    exact .refl p
  · rw [h]
    exact writeBits_clears p f.offset f.bits

/-- A field that takes zero is zeroed, as far as the report goes. -/
theorem bit_write_zero (hwf : f.Wf) {j : ℕ} (hj : f.Covers j) : bit (f.write p 0) j = false := by
  have hmin := hwf.minimum
  have hmax := hwf.maximum
  have hbits : f.bits ≠ 0 := by
    rintro h0
    have := hj.1
    have := hj.2
    omega
  have hzero : f.write p 0 = writeBits p f.offset (fun _ => false) f.bits := by
    unfold write put
    rw [if_neg hbits, if_neg (by omega)]
    have hbit : (fun i => (BitVec.ofInt 32 0).getLsbD i) = fun _ => false := by
      funext i
      simp
    rw [hbit]
  rw [hzero, bit_writeBits_false]
  exact if_pos hj

/-- A field with no bit set reads as zero. -/
theorem get_clear (h : ∀ j, f.Covers j → bit p j = false) : f.get p = 0 := by
  unfold get
  split
  · rfl
  · have hread : readBits p f.offset f.bits = 0 := by
      refine readBits_eq_of_testBit (by positivity) fun i hi => ?_
      rw [h _ ⟨by omega, by omega⟩, Nat.zero_testBit]
    rw [hread]
    simp

end HidField

namespace MouseProfile

variable {m : MouseProfile} {p q : List Byte}

/-- Every relative field of the report is zero. -/
def Still (m : MouseProfile) (p : List Byte) : Prop :=
  ∀ f ∈ m.relative, ∀ j, f.Covers j → bit p j = false

theorem Still.get (h : m.Still p) {f : HidField} (hf : f ∈ m.relative) : f.get p = 0 :=
  HidField.get_clear (h f hf)

theorem Still.clears (h : m.Still p) (hclears : Clears p q) : m.Still q := by
  intro f hf j hj
  by_contra hset
  have hp := hclears j (by simpa using hset)
  rw [h f hf j hj] at hp
  cases hp

/-- A report that is cut short stays still. -/
theorem Still.take (h : m.Still p) (n : ℕ) : m.Still (p.take n) := by
  refine h.clears fun j hj => ?_
  unfold bit at hj ⊢
  rw [List.getD_eq_getElem?_getD] at hj ⊢
  rw [List.getElem?_take] at hj
  split at hj
  · exact hj
  · rw [Option.getD_none] at hj
    cases BitVec.getLsbD_zero.symm.trans hj

theorem putButtons_clears (m : MouseProfile) (p : List Byte) : Clears p (m.putButtons p 0) := by
  unfold putButtons
  induction m.buttons generalizing p with
  | nil => exact .refl p
  | cons b l ih =>
    have hzero : (if (0 : Mask).getLsbD (b.1 - 1) then (1 : ℤ) else 0) = 0 := by simp
    have hfirst : Clears p (b.2.write p (if (0 : Mask).getLsbD (b.1 - 1) then 1 else 0)) := by
      rw [hzero]
      exact b.2.write_zero_clears p
    exact hfirst.trans (ih _)

theorem zeroes_clears (l : List HidField) (p : List Byte) :
    Clears p (l.foldl (fun p f => f.write p 0) p) := by
  induction l generalizing p with
  | nil => exact .refl p
  | cons f l ih => exact (f.write_zero_clears p).trans (ih _)

theorem zeroRelative_clears (m : MouseProfile) (p : List Byte) : Clears p (m.zeroRelative p) :=
  zeroes_clears m.relative p

theorem zeroes_still {l : List HidField} (h : ∀ f ∈ l, f.Wf) (p : List Byte) :
    ∀ f ∈ l, ∀ j, f.Covers j → bit (l.foldl (fun p f => f.write p 0) p) j = false := by
  induction l generalizing p with
  | nil => simp
  | cons g l ih =>
    rw [List.forall_mem_cons] at h ⊢
    refine ⟨fun j hj => ?_, ih h.2 (g.write p 0)⟩
    have hzero : bit (g.write p 0) j = false := HidField.bit_write_zero h.1 hj
    by_contra hset
    rw [zeroes_clears l (g.write p 0) j (by simpa using hset)] at hzero
    cases hzero

theorem zeroRelative_still (h : ∀ f ∈ m.relative, f.Wf) (p : List Byte) :
    m.Still (m.zeroRelative p) := zeroes_still h p

/-- The empty command leaves a report still. -/
theorem encode_still (h : ∀ f ∈ m.relative, f.Wf) (p : List Byte) :
    m.Still (m.encode {} p).1 := by
  have hstart := (zeroRelative_still h p).clears (m.putButtons_clears (m.zeroRelative p))
  have hx := hstart.clears (m.x.write_zero_clears _)
  have hy := hx.clears (m.y.write_zero_clears _)
  have hwheel := hy.clears (m.wheel.write_zero_clears _)
  have hpan := hwheel.clears (m.pan.write_zero_clears _)
  unfold encode
  dsimp only
  split
  · exact hx
  · split
    · exact hy
    · split
      · exact hwheel
      · exact hpan

end MouseProfile

/-- The relative fields of the layouts in use can be zeroed. -/
theorem parseMouseDescriptor_relative {data : List Byte} {m : MouseProfile}
    (hm : m ∈ parseMouseDescriptor data) : ∀ f ∈ m.relative, f.Wf :=
  fun f hf => ((parseMouseDescriptor_parsed hm).moves.field f hf).1

theorem bootProfile_relative : ∀ f ∈ bootProfile.relative, f.Wf := by
  intro f hf
  have haxis := bootProfile_wf.axis
  have hfield : f = bootProfile.x ∨ f = bootProfile.y := by simpa [bootProfile] using hf
  rcases hfield with rfl | rfl
  · exact haxis.1
  · exact haxis.2.1

end UsbProxy
