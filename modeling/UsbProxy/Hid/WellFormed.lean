import UsbProxy.Hid.Descriptor

/-!
# The layouts the parser accepts

Every layout of `parse_mouse_descriptor`, and the boot protocol's, has its axis and button fields
apart from each other, inside the report and behind the report ID, with ranges the bits can hold.
-/

namespace UsbProxy

open Bits

namespace HidField

/-- Bit `j` of the report belongs to the field. -/
def Covers (f : HidField) (j : ℕ) : Prop := f.offset ≤ j ∧ j < f.offset + f.bits

/-- No bit belongs to both fields. -/
def Apart (f g : HidField) : Prop := ∀ j, f.Covers j → ¬ g.Covers j

/-- The range holds zero and the bits hold the range. -/
structure Wf (f : HidField) : Prop where
  bits : f.bits ≤ 16
  minimum : f.minimum ≤ 0
  maximum : 0 ≤ f.maximum
  signed : f.minimum < 0 →
    0 < f.bits ∧ -2 ^ (f.bits - 1) ≤ f.minimum ∧ f.maximum ≤ 2 ^ (f.bits - 1) - 1
  unsigned : f.minimum = 0 → f.maximum ≤ 2 ^ f.bits - 1

theorem Apart.symm {f g : HidField} (h : f.Apart g) : g.Apart f := fun j hg hf => h j hf hg

theorem wf_empty : ({} : HidField).Wf :=
  ⟨by decide, by decide, by decide, by decide, by decide⟩

theorem apart_empty (f : HidField) : f.Apart {} := fun j _ hj => by
  simp only [Covers] at hj
  omega

end HidField

namespace MouseProfile

def axes (m : MouseProfile) : List HidField := [m.x, m.y, m.wheel, m.pan]

/-- The known fields, axes first. -/
def fields (m : MouseProfile) : List HidField := m.axes ++ m.buttons.map (·.2)

/-- The known fields are well-formed and apart, on the bits below `hi` behind the report ID. -/
structure Laid (m : MouseProfile) (id hi : ℕ) : Prop where
  id_eq : m.id = id
  field : ∀ f ∈ m.fields, f.Wf ∧ ∀ j, f.Covers j → (id ≠ 0 → 8 ≤ j) ∧ j < hi
  axes : m.axes.Pairwise HidField.Apart
  axisButton : ∀ f ∈ m.axes, ∀ b ∈ m.buttons, f.Apart b.2
  buttons : m.buttons.Pairwise fun b c => b.1 < c.1 ∧ b.2.Apart c.2
  usages : ∀ b ∈ m.buttons, 1 ≤ b.1 ∧ b.1 ≤ 8 ∧ b.2.bits = 1

/-- A layout the mixer can use. -/
structure Wf (m : MouseProfile) : Prop where
  size : 0 < m.size
  laid : m.Laid m.id (8 * m.size)

theorem Wf.axis {m : MouseProfile} (h : m.Wf) : m.x.Wf ∧ m.y.Wf ∧ m.wheel.Wf ∧ m.pan.Wf := by
  have hf : ∀ f ∈ m.axes, f.Wf := fun f hf => (h.laid.field f (List.mem_append_left _ hf)).1
  simpa [MouseProfile.axes] using hf

theorem Laid.mono {m : MouseProfile} {id hi hi' : ℕ} (h : m.Laid id hi) (hle : hi ≤ hi') :
    m.Laid id hi' :=
  { h with
    field := fun f hf => ⟨(h.field f hf).1, fun j hj =>
      ⟨((h.field f hf).2 j hj).1, lt_of_lt_of_le ((h.field f hf).2 j hj).2 hle⟩⟩ }

theorem laid_empty (id hi : ℕ) : ({ id } : MouseProfile).Laid id hi := by
  have hfields : ∀ f ∈ ({ id } : MouseProfile).fields, f = {} := by simp [fields, MouseProfile.axes]
  refine ⟨rfl, fun f hf => ?_, ?_, ?_, ?_, ?_⟩
  · rw [hfields f hf]
    exact ⟨HidField.wf_empty, fun j hj => by simp only [HidField.Covers] at hj; omega⟩
  · simp [MouseProfile.axes, HidField.apart_empty]
  · simp
  · simp
  · simp

/-- A field past everything laid so far is apart from it. -/
theorem Laid.apart {m : MouseProfile} {id hi : ℕ} (h : m.Laid id hi) {f g : HidField}
    (hf : f ∈ m.fields) (hg : hi ≤ g.offset) : f.Apart g := fun j hj hgj => by
  have := ((h.field f hf).2 j hj).2
  have := hgj.1
  omega

theorem mem_setButton {usage : ℕ} {f : HidField} {l : List (ℕ × HidField)} {b : ℕ × HidField}
    (h : b ∈ Parse.setButton usage f l) : b = (usage, f) ∨ b ∈ l := by
  induction l with
  | nil => exact .inl (List.mem_singleton.mp h)
  | cons a l ih =>
    unfold Parse.setButton at h
    split_ifs at h
    · rcases List.mem_cons.mp h with h | h
      · exact .inl h
      · exact .inr h
    · rcases List.mem_cons.mp h with h | h
      · exact .inl h
      · exact .inr (List.mem_cons_of_mem _ h)
    · rcases List.mem_cons.mp h with h | h
      · exact .inr (h ▸ List.mem_cons_self)
      · exact (ih h).imp_right (List.mem_cons_of_mem _)

theorem setButton_pairwise {usage : ℕ} {f : HidField} {l : List (ℕ × HidField)}
    (h : l.Pairwise fun b c => b.1 < c.1 ∧ b.2.Apart c.2) (hf : ∀ b ∈ l, b.2.Apart f) :
    (Parse.setButton usage f l).Pairwise fun b c => b.1 < c.1 ∧ b.2.Apart c.2 := by
  induction l with
  | nil => exact List.pairwise_singleton _ _
  | cons a l ih =>
    obtain ⟨ha, hl⟩ := List.pairwise_cons.mp h
    have hfl : ∀ b ∈ l, b.2.Apart f := fun b hb => hf b (List.mem_cons_of_mem _ hb)
    unfold Parse.setButton
    split_ifs with hlt heq
    · refine List.pairwise_cons.mpr ⟨fun b hb => ?_, h⟩
      refine ⟨?_, (hf b hb).symm⟩
      rcases List.mem_cons.mp hb with rfl | hb
      · exact hlt
      · exact hlt.trans (ha b hb).1
    · refine List.pairwise_cons.mpr ⟨fun b hb => ⟨?_, (hfl b hb).symm⟩, hl⟩
      rw [heq]
      exact (ha b hb).1
    · refine List.pairwise_cons.mpr ⟨fun b hb => ?_, ih hl hfl⟩
      rcases mem_setButton hb with rfl | hb
      · exact ⟨by omega, hf a List.mem_cons_self⟩
      · exact ha b hb

/-- An axis placed past everything laid so far keeps the layout. -/
theorem Laid.setAxes {m : MouseProfile} {id hi : ℕ} {f x y wheel pan : HidField}
    (h : m.Laid id hi) (hf : f.Wf) (hlo : hi ≤ f.offset) (hid : id ≠ 0 → 8 ≤ f.offset)
    (hmem : ∀ g ∈ [x, y, wheel, pan], g = f ∨ g ∈ m.axes)
    (hpairs : [x, y, wheel, pan].Pairwise HidField.Apart) :
    ({ m with x, y, wheel, pan } : MouseProfile).Laid id (f.offset + f.bits) := by
  have hmono : m.Laid id (f.offset + f.bits) := h.mono (by omega)
  refine ⟨h.id_eq, fun g hg => ?_, hpairs, fun g hg b hb => ?_, h.buttons, h.usages⟩
  · rcases List.mem_append.mp hg with hg | hg
    · rcases hmem g hg with rfl | hg
      · exact ⟨hf, fun j hj => ⟨fun hne => (hid hne).trans hj.1, hj.2⟩⟩
      · exact hmono.field g (List.mem_append_left _ hg)
    · exact hmono.field g (List.mem_append_right _ hg)
  · rcases hmem g hg with rfl | hg
    · exact (h.apart (List.mem_append_right _ (List.mem_map_of_mem hb)) hlo).symm
    · exact h.axisButton g hg b hb

/-- A button placed past everything laid so far keeps the layout. -/
theorem Laid.setButton {m : MouseProfile} {id hi usage : ℕ} {f : HidField}
    (h : m.Laid id hi) (hf : f.Wf) (hlo : hi ≤ f.offset) (hid : id ≠ 0 → 8 ≤ f.offset)
    (hbits : f.bits = 1) (husage : 1 ≤ usage ∧ usage ≤ 8) :
    ({ m with buttons := Parse.setButton usage f m.buttons } : MouseProfile).Laid id
      (f.offset + f.bits) := by
  have hmono : m.Laid id (f.offset + f.bits) := h.mono (by omega)
  refine ⟨h.id_eq, fun g hg => ?_, h.axes, fun g hg b hb => ?_, ?_, fun b hb => ?_⟩
  · rcases List.mem_append.mp hg with hg | hg
    · exact hmono.field g (List.mem_append_left _ hg)
    · obtain ⟨b, hb, rfl⟩ := List.mem_map.mp hg
      rcases mem_setButton hb with rfl | hb
      · exact ⟨hf, fun j hj => ⟨fun hne => (hid hne).trans hj.1, hj.2⟩⟩
      · exact hmono.field b.2 (List.mem_append_right _ (List.mem_map_of_mem hb))
  · rcases mem_setButton hb with rfl | hb
    · exact h.apart (List.mem_append_left _ hg) hlo
    · exact h.axisButton g hg b hb
  · exact setButton_pairwise h.buttons fun b hb =>
      h.apart (List.mem_append_right _ (List.mem_map_of_mem hb)) hlo
  · rcases mem_setButton hb with rfl | hb
    · exact ⟨husage.1, husage.2, hbits⟩
    · exact h.usages b hb

end MouseProfile

namespace Parse

open MouseProfile

theorem place_laid {r r' : MouseProfile} {id hi usage : ℕ} {relative : Bool} {f : HidField}
    (h : r.Laid id hi) (hplace : place r relative usage f = some r') (hf : f.Wf)
    (hlo : hi ≤ f.offset) (hid : id ≠ 0 → 8 ≤ f.offset) : r'.Laid id (f.offset + f.bits) := by
  unfold place at hplace
  dsimp only at hplace
  generalize hr : (if relative = true then { r with relative := r.relative ++ [f] } else r) = r0
    at hplace
  have h0 : r0.Laid id hi := by
    subst hr
    split
    · exact ⟨h.id_eq, h.field, h.axes, h.axisButton, h.buttons, h.usages⟩
    · exact h
  have hapart : ∀ g ∈ r0.axes, g.Apart f := fun g hg => h0.apart (List.mem_append_left _ hg) hlo
  have hpairs := h0.axes
  simp only [MouseProfile.axes, List.pairwise_cons, List.mem_cons, forall_eq_or_imp,
    List.not_mem_nil, false_imp_iff, implies_true, and_true, List.Pairwise.nil] at hpairs hapart
  obtain ⟨⟨hxy, hxw, hxp⟩, ⟨hyw, hyp⟩, hwp⟩ := hpairs
  obtain ⟨hx, hy, hw, hp⟩ := hapart
  split_ifs at hplace with h1 h2 h3 h4 h5 h6 h7
  · cases hplace
    exact h0.setAxes hf hlo hid (by simp [MouseProfile.axes])
      (by simp [hy.symm, hw.symm, hp.symm, hyw, hyp, hwp])
  · cases hplace
    exact h0.setAxes hf hlo hid (by simp [MouseProfile.axes])
      (by simp [hx, hw.symm, hp.symm, hxw, hxp, hwp])
  · cases hplace
    exact h0.setAxes hf hlo hid (by simp [MouseProfile.axes])
      (by simp [hx, hy, hp.symm, hxy, hxp, hyp])
  · cases hplace
    exact h0.setAxes hf hlo hid (by simp [MouseProfile.axes])
      (by simp [hx, hy, hw, hxy, hxw, hyw])
  · cases hplace
    exact h0.setButton hf hlo hid h7.2.2.2 ⟨h7.2.1, h7.2.2.1⟩
  · cases hplace
    exact h0.mono (by omega)

/-- What a placed field changes of a profile. -/
theorem place_fields {r r' : MouseProfile} {usage : ℕ} {relative : Bool} {f : HidField}
    (hplace : place r relative usage f = some r') :
    r'.relative = (if relative then r.relative ++ [f] else r.relative) ∧
      (∀ g ∈ r'.axes, (g = f ∧ relative = true) ∨ g ∈ r.axes) ∧
      ∀ b ∈ r'.buttons, b.2 = f ∨ b ∈ r.buttons := by
  unfold place at hplace
  dsimp only at hplace
  generalize hr : (if relative = true then { r with relative := r.relative ++ [f] } else r) = r0
    at hplace
  have h0 : r0.relative = (if relative then r.relative ++ [f] else r.relative) ∧
      r0.axes = r.axes ∧ r0.buttons = r.buttons := by
    subst hr
    split <;> exact ⟨rfl, rfl, rfl⟩
  obtain ⟨hrelative, haxes, hbuttons⟩ := h0
  have hold (b : ℕ × HidField) (hb : b ∈ r0.buttons) : b.2 = f ∨ b ∈ r.buttons :=
    .inr (hbuttons ▸ hb)
  rw [← haxes, ← hrelative]
  split_ifs at hplace with h1 h2 h3 h4 h5 h6 h7
  · cases hplace
    exact ⟨rfl, by simp +contextual [MouseProfile.axes, h1.2], hold⟩
  · cases hplace
    exact ⟨rfl, by simp +contextual [MouseProfile.axes, h3.2], hold⟩
  · cases hplace
    exact ⟨rfl, by simp +contextual [MouseProfile.axes, h5.2], hold⟩
  · cases hplace
    exact ⟨rfl, by simp +contextual [MouseProfile.axes, h6.2], hold⟩
  · cases hplace
    refine ⟨rfl, fun g hg => .inr hg, fun b hb => ?_⟩
    rcases mem_setButton hb with rfl | hb
    · exact .inl rfl
    · exact hold b hb
  · cases hplace
    exact ⟨rfl, fun g hg => .inr hg, hold⟩

/-- What every item keeps, the item loop keeps. -/
theorem items_invariant {Q : Parse → Prop}
    (hQ : ∀ s s' pre len v, Q s → s.item pre len v = some s' → Q s') {s' : Parse} :
    ∀ (data : List Byte) {s : Parse}, Q s → items data s = some s' → Q s'
  | [], _, h, hitems => by
    cases hitems
    exact h
  | pre :: rest, s, h, hitems => by
    have hbind {len v : ℕ} {rest : List Byte}
        (ih : ∀ {s}, Q s → items rest s = some s' → Q s')
        (hitems : ((s.item pre len v).bind fun s => items rest s) = some s') : Q s' := by
      obtain ⟨s1, hitem, hrest⟩ := Option.bind_eq_some_iff.mp hitems
      exact ih (hQ _ _ _ _ _ h hitem) hrest
    unfold items at hitems
    split_ifs at hitems
    · exact hbind (items_invariant hQ rest) hitems
    · match rest, hitems with
      | _ :: rest, hitems => exact hbind (items_invariant hQ rest) hitems
    · match rest, hitems with
      | _ :: _ :: rest, hitems => exact hbind (items_invariant hQ rest) hitems
    · match rest, hitems with
      | _ :: _ :: _ :: _ :: rest, hitems => exact hbind (items_invariant hQ rest) hitems

/-- A property of the profile laid out up to a cursor that the parser keeps. -/
structure Keeps (P : ℕ → ℕ → MouseProfile → Prop) : Prop where
  empty : ∀ id hi, P id hi { id }
  mono : ∀ {id hi hi' r}, hi ≤ hi' → P id hi r → P id hi' r
  stamp : ∀ {id hi r} (size : ℕ), P id hi r → P id hi { r with id, size }
  place : ∀ {id hi r r' usage relative f}, P id hi r → place r relative usage f = some r' →
    f.Wf → 0 < f.bits → f.minimum < f.maximum → hi ≤ f.offset → (id ≠ 0 → 8 ≤ f.offset) →
      P id (f.offset + f.bits) r'

theorem keeps_laid : Keeps fun id hi r => r.Laid id hi where
  empty := laid_empty
  mono hle h := h.mono hle
  stamp _ h := { h with id_eq := rfl }
  place h hplace hf _ _ hlo hid := place_laid h hplace hf hlo hid

theorem keeps_id : Keeps fun id _ r => r.id = id where
  empty _ _ := rfl
  mono _ h := h
  stamp _ _ := rfl
  place h hplace _ _ _ _ _ := by
    unfold Parse.place at hplace
    dsimp only at hplace
    split_ifs at hplace <;> cases hplace <;> exact h

section Keeps

variable {P : ℕ → ℕ → MouseProfile → Prop} (hP : Keeps P)

include hP

/-- The field loop of an input item keeps the property up to its cursor. -/
theorem fields_keeps (s : Parse) {id off v : ℕ} {mouse : Bool} (hid : id ≠ 0 → 8 ≤ off) :
    ∀ {left i : ℕ} {r r' : MouseProfile}, P id (off + i * s.g.size.toNat) r →
      fields s off v mouse left i r = some r' → P id (off + (i + left) * s.g.size.toNat) r'
  | 0, i, r, r', h, hfields => by
    cases hfields
    exact h
  | left + 1, i, r, r', h, hfields => by
    have hcursor : off + i * s.g.size.toNat + s.g.size.toNat =
        off + (i + 1) * s.g.size.toNat := by ring
    have hnext : off + (i + 1 + left) * s.g.size.toNat =
        off + (i + (left + 1)) * s.g.size.toNat := by ring
    unfold fields at hfields
    dsimp only at hfields
    rw [← hnext]
    split at hfields
    · rename_i huse
      obtain ⟨-, -, -, hpos, hsize, hmin, hmax, hlt⟩ := huse
      generalize hf : HidField.mk (off + i * s.g.size.toNat) s.g.size.toNat s.g.min s.g.max = f
        at hfields
      have hoff : f.offset = off + i * s.g.size.toNat := by rw [← hf]
      have hbits : f.bits = s.g.size.toNat := by rw [← hf]
      generalize hlower : (if s.g.min < 0 then -2 ^ (s.g.size.toNat - 1) else (0 : ℤ)) = lower
        at hfields
      generalize hupper : (if s.g.min < 0 then (2 : ℤ) ^ (s.g.size.toNat - 1) - 1
        else 2 ^ s.g.size.toNat - 1) = upper at hfields
      split at hfields
      · cases hfields
      · rename_i hrange
        push Not at hrange
        split at hfields
        · cases hfields
        · rename_i r1 hplace
          have hwf : f.Wf := by
            subst hf hlower hupper
            refine ⟨hsize, hmin, hmax, fun hneg => ?_, fun hzero => ?_⟩
            · have hneg : s.g.min < 0 := hneg
              simp only [hneg, if_true] at hrange
              exact ⟨hpos, hrange.1, hrange.2⟩
            · have hzero : ¬ s.g.min < 0 := not_lt.mpr (le_of_eq (Eq.symm hzero))
              simp only [hzero, if_false] at hrange
              exact hrange.2
          have hrising : f.minimum < f.maximum := by rw [← hf]; exact hlt
          have hplaced := hP.place h hplace hwf (hbits ▸ hpos) hrising hoff.ge fun hne =>
            (hid hne).trans (by omega)
          rw [hoff, hbits, hcursor] at hplaced
          exact fields_keeps s hid hplaced hfields
    · exact fields_keeps s hid (hP.mono (by omega) h) hfields

omit hP in
/-- The profiles of the parser's state have the property up to their cursors. -/
structure Wf (P : ℕ → ℕ → MouseProfile → Prop) (s : Parse) : Prop where
  profile : ∀ id r, s.profiles id = some r →
    P id (s.offsets id) r ∧ r.id = id ∧ r.size = (s.offsets id + 7) / 8
  start : ∀ id, id ≠ 0 → s.offsets id = 0 ∨ 8 ≤ s.offsets id

omit hP in
theorem Wf.congr {s s' : Parse} (h : s.Wf P) (hprofiles : s'.profiles = s.profiles)
    (hoffsets : s'.offsets = s.offsets) : s'.Wf P :=
  ⟨by rw [hprofiles, hoffsets]; exact h.profile, by rw [hoffsets]; exact h.start⟩

theorem input_wf {s s' : Parse} {v : ℕ} (h : s.Wf P) (hinput : s.input v = some s') :
    s'.Wf P := by
  unfold input at hinput
  dsimp only at hinput
  split at hinput
  · cases hinput
  generalize hoff : (if s.offsets s.g.id = 0 ∧ s.g.id ≠ 0 then 8 else s.offsets s.g.id) = off
    at hinput
  have hle : s.offsets s.g.id ≤ off := by
    rw [← hoff]
    split <;> omega
  have hstart : s.g.id ≠ 0 → 8 ≤ off := fun hne => by
    rw [← hoff]
    split
    · exact le_refl 8
    · rename_i hset
      have := h.start s.g.id hne
      omega
  split at hinput
  · cases hinput
  split at hinput
  · cases hinput
  split at hinput
  · cases hinput
  · rename_i r hfields
    cases hinput
    have hbase : P s.g.id (off + 0 * s.g.size.toNat)
        { (s.profiles s.g.id).getD {} with id := s.g.id } := by
      rw [Nat.zero_mul, Nat.add_zero]
      cases hp : s.profiles s.g.id with
      | none => exact hP.empty _ _
      | some r0 => exact hP.stamp r0.size (hP.mono hle (h.profile _ _ hp).1)
    have hr := fields_keeps hP s hstart hbase hfields
    have hcursor : off + (0 + s.g.count.toNat) * s.g.size.toNat =
        off + s.g.size.toNat * s.g.count.toNat := by ring
    rw [hcursor] at hr
    have hid : r.id = s.g.id := (fields_keeps keeps_id s hstart rfl hfields)
    refine ⟨fun id r' hr' => ?_, fun id hne => ?_⟩
    · by_cases hid' : id = s.g.id
      · subst hid'
        simp only [Function.update_self, Option.some.injEq] at hr' ⊢
        subst hr'
        have hstamped := hP.stamp ((off + s.g.size.toNat * s.g.count.toNat + 7) / 8) hr
        rw [← hid] at hstamped ⊢
        exact ⟨hstamped, rfl, rfl⟩
      · simp only [Function.update_of_ne hid'] at hr' ⊢
        exact h.profile id r' hr'
    · by_cases hid' : id = s.g.id
      · subst hid'
        simp only [Function.update_self]
        have := hstart hne
        omega
      · simp only [Function.update_of_ne hid']
        exact h.start id hne

theorem main_wf {s s' : Parse} {tag v : ℕ} (h : s.Wf P) (hmain : s.main tag v = some s') :
    s'.Wf P := by
  unfold main at hmain
  dsimp only at hmain
  split at hmain
  · cases hmain
    exact h.congr rfl rfl
  split at hmain
  · split at hmain <;> cases hmain
    exact h.congr rfl rfl
  split at hmain
  · obtain ⟨s1, hinput, rfl⟩ := Option.map_eq_some_iff.mp hmain
    exact (input_wf hP h hinput).congr rfl rfl
  · cases hmain
    exact h.congr rfl rfl

theorem item_wf {s s' : Parse} {pre : Byte} {len v : ℕ} (h : s.Wf P)
    (hitem : s.item pre len v = some s') : s'.Wf P := by
  unfold item at hitem
  dsimp only at hitem
  split_ifs at hitem
  · unfold global at hitem
    dsimp only at hitem
    split at hitem
    case h_5 =>
      split at hitem <;> cases hitem
      exact h.congr rfl rfl
    case h_8 =>
      split at hitem <;> cases hitem
      exact h.congr rfl rfl
    all_goals
      cases hitem
      exact h.congr rfl rfl
  · cases hitem
    unfold usage
    dsimp only
    split <;> exact h.congr rfl rfl
  · exact main_wf hP h hitem
  · cases hitem
    exact h

theorem items_wf {data : List Byte} {s s' : Parse} (h : s.Wf P) (hitems : items data s = some s') :
    s'.Wf P := items_invariant (fun _ _ _ _ _ h hitem => item_wf hP h hitem) data h hitems

end Keeps

theorem wf_init (P : ℕ → ℕ → MouseProfile → Prop) : ({} : Parse).Wf P :=
  ⟨fun _ _ h => (by cases h), fun _ _ => .inl rfl⟩

/-- The layouts found carry the IDs they are found under. -/
theorem mem_result {P : ℕ → ℕ → MouseProfile → Prop} {s : Parse} {m : MouseProfile} (h : s.Wf P)
    (hm : m ∈ s.result) : s.profiles m.id = some m ∧ m.x.bits ≠ 0 := by
  obtain ⟨id, -, hid⟩ := List.mem_filterMap.mp hm
  rw [Option.filter_eq_some_iff] at hid
  obtain ⟨hprofile, huse⟩ := hid
  simp only [Bool.and_eq_true, bne_iff_ne, ne_eq] at huse
  refine ⟨?_, huse.1.1.2⟩
  rw [(h.profile id m hprofile).2.1]
  exact hprofile

theorem result_pairwise {P : ℕ → ℕ → MouseProfile → Prop} {s : Parse} (h : s.Wf P) :
    s.result.Pairwise fun m n => m.id ≠ n.id := by
  unfold result
  rw [List.pairwise_filterMap]
  refine List.pairwise_lt_range.imp fun {i j} hlt m hm n hn => ?_
  rw [Option.filter_eq_some_iff] at hm hn
  rw [(h.profile i m hm.1).2.1, (h.profile j n hn.1).2.1]
  omega

/-- **What the parser keeps, every layout it finds has.** -/
theorem keeps_result {P : ℕ → ℕ → MouseProfile → Prop} (hP : Keeps P) {data : List Byte}
    {m : MouseProfile} (hm : m ∈ parseMouseDescriptor data) : P m.id (8 * m.size) m := by
  unfold parseMouseDescriptor at hm
  split at hm
  · cases hm
  · rename_i s hitems
    have hwf := items_wf hP (wf_init P) hitems
    split at hm
    · obtain ⟨hprofile, -⟩ := mem_result hwf hm
      obtain ⟨h, -, hsize⟩ := hwf.profile _ m hprofile
      exact hP.mono (by omega) h
    · cases hm

end Parse

/-- **Every layout the parser finds is well-formed**, and no two carry one report ID. -/
theorem parseMouseDescriptor_wf (data : List Byte) :
    (∀ m ∈ parseMouseDescriptor data, m.Wf) ∧
      (parseMouseDescriptor data).Pairwise fun m n => m.id ≠ n.id := by
  refine ⟨fun m hm => ?_, ?_⟩
  · have hlaid := Parse.keeps_result Parse.keeps_laid hm
    refine ⟨?_, hlaid⟩
    have hx : m.x.bits ≠ 0 := by
      unfold parseMouseDescriptor at hm
      split at hm
      · cases hm
      · rename_i s hitems
        split at hm
        · exact (Parse.mem_result
            (Parse.items_wf Parse.keeps_laid (Parse.wf_init _) hitems) hm).2
        · cases hm
    have hfirst := (hlaid.field m.x (by simp [MouseProfile.fields, MouseProfile.axes])).2
      m.x.offset ⟨le_refl _, by omega⟩
    omega
  · unfold parseMouseDescriptor
    split
    · exact .nil
    · rename_i s hitems
      split
      · exact Parse.result_pairwise
          (Parse.items_wf Parse.keeps_laid (Parse.wf_init _) hitems)
      · exact .nil

theorem bootProfile_wf : bootProfile.Wf := by
  have hfields : ∀ f ∈ bootProfile.fields,
      f.Wf ∧ ∀ j, f.Covers j → (0 ≠ 0 → 8 ≤ j) ∧ j < 24 := by
    simp only [MouseProfile.fields, MouseProfile.axes, bootProfile, List.map_cons, List.map_nil,
      List.cons_append, List.nil_append, List.mem_cons, List.not_mem_nil, or_false,
      forall_eq_or_imp, forall_eq, HidField.Covers]
    refine ⟨?_, ?_, ?_, ?_, ?_, ?_, ?_⟩
    all_goals exact ⟨⟨by decide, by decide, by decide, by decide, by decide⟩, by omega⟩
  refine ⟨by decide, ⟨rfl, hfields, ?_, ?_, ?_, by decide⟩⟩
  · simp [MouseProfile.axes, bootProfile, HidField.Apart, HidField.Covers]
    omega
  · simp [MouseProfile.axes, bootProfile, HidField.Apart, HidField.Covers]
    refine ⟨⟨?_, ?_, ?_⟩, ?_, ?_, ?_⟩ <;> omega
  · simp [bootProfile, HidField.Apart, HidField.Covers]
    omega

end UsbProxy
