import UsbProxy.Hid.Fields

/-!
# Encoding and decoding a command

`encode` into any report of a parsed layout reads back as the command, as long as the logical range
of every pressed button holds 1.
-/

namespace UsbProxy

open Bits

namespace MouseProfile

/-- The relative fields of a layout up to the cursor `hi`: apart from each other and from the other
known fields, the axes among them. -/
structure Moves (m : MouseProfile) (hi : ℕ) : Prop where
  field : ∀ f ∈ m.relative, f.Wf ∧ 0 < f.bits ∧ ∀ j, f.Covers j → j < hi
  apart : m.relative.Pairwise HidField.Apart
  known : ∀ f ∈ m.relative, ∀ g ∈ m.fields, f = g ∨ f.Apart g
  axes : ∀ f ∈ m.axes, f.bits ≠ 0 → f ∈ m.relative

theorem Moves.mono {m : MouseProfile} {hi hi' : ℕ} (h : m.Moves hi) (hle : hi ≤ hi') :
    m.Moves hi' :=
  { h with field := fun f hf => ⟨(h.field f hf).1, (h.field f hf).2.1, fun j hj =>
      lt_of_lt_of_le ((h.field f hf).2.2 j hj) hle⟩ }

end MouseProfile

theorem Parse.keeps_moves : Parse.Keeps fun id hi r => r.Laid id hi ∧ r.Moves hi where
  empty id hi := ⟨MouseProfile.laid_empty id hi,
    ⟨by simp, by simp, by simp, by simp [MouseProfile.axes]⟩⟩
  mono hle h := ⟨h.1.mono hle, h.2.mono hle⟩
  stamp _ h := ⟨{ h.1 with id_eq := rfl }, { h.2 with }⟩
  place := by
    rintro id hi r r' usage relative f ⟨hlaid, hmoves⟩ hplace hf hbits - hlo hid
    refine ⟨place_laid hlaid hplace hf hlo hid, ?_⟩
    obtain ⟨hrelative, haxes, hbuttons⟩ := place_fields hplace
    have hfields : ∀ g ∈ r'.fields, g = f ∨ g ∈ r.fields := by
      intro g hg
      rcases List.mem_append.mp hg with hg | hg
      · exact (haxes g hg).imp And.left (List.mem_append_left _)
      · obtain ⟨b, hb, rfl⟩ := List.mem_map.mp hg
        exact (hbuttons b hb).imp_right fun hb =>
          List.mem_append_right _ (List.mem_map_of_mem hb)
    have hold : ∀ g ∈ r'.relative, g = f ∨ g ∈ r.relative := by
      rw [hrelative]
      intro g hg
      split at hg
      · rcases List.mem_append.mp hg with hg | hg
        · exact .inr hg
        · exact .inl (List.mem_singleton.mp hg)
      · exact .inr hg
    -- what lies below the cursor is apart from the new field
    have hbelow {g : HidField} (h : ∀ j, g.Covers j → j < hi) : g.Apart f := fun j hj hfj => by
      have := h j hj
      have := hfj.1
      omega
    refine ⟨fun g hg => ?_, ?_, fun g hg g' hg' => ?_, fun g hg hne => ?_⟩
    · rcases hold g hg with rfl | hg
      · exact ⟨hf, hbits, fun j hj => hj.2⟩
      · obtain ⟨h1, h2, h3⟩ := hmoves.field g hg
        exact ⟨h1, h2, fun j hj => by have := h3 j hj; omega⟩
    · rw [hrelative]
      split
      · refine List.pairwise_append.mpr ⟨hmoves.apart, List.pairwise_singleton _ _,
          fun g hg g' hg' => ?_⟩
        rw [List.mem_singleton.mp hg']
        exact hbelow (hmoves.field g hg).2.2
      · exact hmoves.apart
    · rcases hold g hg with rfl | hg <;> rcases hfields g' hg' with rfl | hg'
      · exact .inl rfl
      · exact .inr (hbelow fun j hj => ((hlaid.field g' hg').2 j hj).2).symm
      · exact .inr (hbelow (hmoves.field g hg).2.2)
      · exact hmoves.known g hg g' hg'
    · rw [hrelative]
      rcases haxes g hg with ⟨rfl, hrel⟩ | hg
      · rw [if_pos hrel]
        exact List.mem_append_right _ List.mem_cons_self
      · have := hmoves.axes g hg hne
        split
        · exact List.mem_append_left _ this
        · exact this

namespace MouseProfile

variable {m : MouseProfile} {c : MouseCommand} {p : List Byte}

/-- The command can be encoded in the layout: every axis takes its value and every button is
declared. -/
def Carries (m : MouseProfile) (c : MouseCommand) : Prop :=
  m.x.Takes c.x ∧ m.y.Takes c.y ∧ m.wheel.Takes c.wheel ∧ m.pan.Takes c.pan ∧
    c.buttons &&& ~~~m.supported = 0

/-- `encode` succeeds, the report reads back as the command with every other relative field zero,
and its other bits are as they were. -/
structure RoundTrip (m : MouseProfile) (c : MouseCommand) (p : List Byte) : Prop where
  succeeds : (m.encode c p).2 = true
  length : (m.encode c p).1.length = p.length
  x : m.x.get (m.encode c p).1 = c.x
  y : m.y.get (m.encode c p).1 = c.y
  wheel : m.wheel.get (m.encode c p).1 = c.wheel
  pan : m.pan.get (m.encode c p).1 = c.pan
  buttons : m.buttonMask (m.encode c p).1 = c.buttons
  relative : ∀ f ∈ m.relative, f ∉ m.fields → f.get (m.encode c p).1 = 0
  other : ∀ j, (∀ f ∈ m.relative, ¬ f.Covers j) → (∀ b ∈ m.buttons, ¬ b.2.Covers j) →
    bit (m.encode c p).1 j = bit p j

/-- The writes of `encode`. -/
def encodeWrites (m : MouseProfile) (c : MouseCommand) : List (HidField × ℤ) :=
  m.relative.map (fun f => (f, 0)) ++ m.buttonWrites c.buttons ++
    [(m.x, c.x), (m.y, c.y), (m.wheel, c.wheel), (m.pan, c.pan)]

theorem encode_writes (h : m.Carries c) (p : List Byte) :
    m.encode c p = (writes (m.encodeWrites c) p, true) := by
  obtain ⟨hx, hy, hw, hp, -⟩ := h
  unfold encode
  dsimp only
  rw [HidField.put_takes hx, HidField.put_takes hy, HidField.put_takes hw]
  simp only [Bool.not_true, Bool.false_eq_true, if_false]
  refine Prod.ext ?_ (HidField.put_takes hp)
  rw [encodeWrites, writes_append, writes_append, ← zeroRelative_writes, ← putButtons_writes]
  rfl

/-- A layout with its relative fields. -/
structure Parsed (m : MouseProfile) : Prop extends m.Wf where
  moves : m.Moves (8 * m.size)

theorem Wf.inside {f : HidField} (h : m.Wf) (hf : f ∈ m.fields) : f.Inside m.size := fun hbits => by
  have := ((h.laid.field f hf).2 (f.offset + f.bits - 1) ⟨by omega, by omega⟩).2
  omega

theorem Parsed.inside (h : m.Parsed) (hp : p.length = m.size) :
    ∀ w ∈ m.encodeWrites c, w.1.Inside p.length := by
  rw [hp]
  intro w hw
  rcases List.mem_append.mp hw with hw | hw
  · rcases List.mem_append.mp hw with hw | hw
    · obtain ⟨f, hf, rfl⟩ := List.mem_map.mp hw
      obtain ⟨-, hpos, hcovers⟩ := h.moves.field f hf
      have := hcovers (f.offset + f.bits - 1) ⟨by omega, by omega⟩
      intro _
      dsimp only
      omega
    · obtain ⟨b, hb, rfl⟩ := List.mem_map.mp hw
      exact h.toWf.inside (List.mem_append_right _ (List.mem_map_of_mem hb))
  · have haxis : ∀ f ∈ m.axes, f.Inside m.size := fun f hf =>
      h.toWf.inside (List.mem_append_left _ hf)
    simp only [axes, List.mem_cons, List.not_mem_nil, or_false, forall_eq_or_imp, forall_eq]
      at haxis
    simp only [List.mem_cons, List.not_mem_nil, or_false] at hw
    rcases hw with rfl | rfl | rfl | rfl
    · exact haxis.1
    · exact haxis.2.1
    · exact haxis.2.2.1
    · exact haxis.2.2.2

/-- The writes before the buttons, at a button, and after them. -/
theorem buttonWrites_split {b : ℕ × HidField} (hb : b ∈ m.buttons) (mask : Mask) :
    ∃ l l', m.buttons = l ++ b :: l' ∧
      m.buttonWrites mask =
        l.map (fun b => (b.2, if mask.getLsbD (b.1 - 1) then 1 else 0)) ++
          (b.2, if mask.getLsbD (b.1 - 1) then 1 else 0) ::
            l'.map (fun b => (b.2, if mask.getLsbD (b.1 - 1) then 1 else 0)) := by
  obtain ⟨l, l', hsplit⟩ := List.append_of_mem hb
  refine ⟨l, l', hsplit, ?_⟩
  rw [buttonWrites, hsplit, List.map_append, List.map_cons]

/-- The buttons behind a button are apart from it, and so are the axes. -/
theorem Wf.after_button (h : m.Wf) {b : ℕ × HidField} {l l' : List (ℕ × HidField)}
    (hsplit : m.buttons = l ++ b :: l') :
    (∀ b' ∈ l, b'.2.Apart b.2) ∧ (∀ b' ∈ l', b'.2.Apart b.2) ∧ ∀ f ∈ m.axes, f.Apart b.2 := by
  have hpairs := h.laid.buttons
  rw [hsplit, List.pairwise_append, List.pairwise_cons] at hpairs
  refine ⟨fun b' hb' => (hpairs.2.2 b' hb' b List.mem_cons_self).2,
    fun b' hb' => (hpairs.2.1.1 b' hb').2.symm,
    fun f hf => h.laid.axisButton f hf b (by simp [hsplit])⟩

/-- The value `encode` leaves in a button field that takes it. -/
theorem Parsed.get_button (h : m.Parsed) (hp : p.length = m.size) {b : ℕ × HidField}
    (hb : b ∈ m.buttons) (htakes : b.2.Takes (if c.buttons.getLsbD (b.1 - 1) then 1 else 0)) :
    b.2.get (writes (m.encodeWrites c) p) = if c.buttons.getLsbD (b.1 - 1) then 1 else 0 := by
  obtain ⟨l, l', hsplit, hwrites⟩ := buttonWrites_split hb c.buttons
  obtain ⟨-, hafter, haxes⟩ := h.toWf.after_button hsplit
  have hin := h.inside (c := c) hp
  have hform : m.encodeWrites c =
      (m.relative.map (fun f => (f, 0)) ++
        l.map (fun b => (b.2, if c.buttons.getLsbD (b.1 - 1) then 1 else 0))) ++
        (b.2, if c.buttons.getLsbD (b.1 - 1) then 1 else 0) ::
          (l'.map (fun b => (b.2, if c.buttons.getLsbD (b.1 - 1) then 1 else 0)) ++
            [(m.x, c.x), (m.y, c.y), (m.wheel, c.wheel), (m.pan, c.pan)]) := by
    rw [encodeWrites, hwrites]
    simp only [List.append_assoc, List.cons_append]
  rw [hform] at hin ⊢
  have hwf := (h.laid.field b.2 (List.mem_append_right _ (List.mem_map_of_mem hb))).1
  refine get_writes hwf hin htakes fun w hw => ?_
  rcases List.mem_append.mp hw with hw | hw
  · obtain ⟨b', hb', rfl⟩ := List.mem_map.mp hw
    exact hafter b' hb'
  · simp only [axes, List.mem_cons, List.not_mem_nil, or_false, forall_eq_or_imp, forall_eq]
      at haxes
    simp only [List.mem_cons, List.not_mem_nil, or_false] at hw
    rcases hw with rfl | rfl | rfl | rfl
    · exact haxes.1
    · exact haxes.2.1
    · exact haxes.2.2.1
    · exact haxes.2.2.2

/-- Zeroing the relative fields leaves each of them zero. -/
theorem Parsed.get_zeroed (h : m.Parsed) {f : HidField}
    (hin : ∀ w ∈ m.relative.map fun f => (f, (0 : ℤ)), w.1.Inside p.length)
    (hf : f ∈ m.relative) : f.get (writes (m.relative.map fun f => (f, 0)) p) = 0 := by
  obtain ⟨l, l', hsplit⟩ := List.append_of_mem hf
  have hpairs := h.moves.apart
  rw [hsplit, List.map_append, List.map_cons] at hin ⊢
  rw [hsplit, List.pairwise_append, List.pairwise_cons] at hpairs
  have hwf := (h.moves.field f hf).1
  refine get_writes hwf hin (HidField.takes_zero hwf) fun w hw => ?_
  obtain ⟨g, hg, rfl⟩ := List.mem_map.mp hw
  exact (hpairs.2.1.1 g hg).symm

/-- A pressed button that does not take 1 keeps what zeroing the relative fields left. -/
theorem Parsed.get_refused (h : m.Parsed) (hp : p.length = m.size) {b : ℕ × HidField}
    (hb : b ∈ m.buttons) (hpressed : c.buttons.getLsbD (b.1 - 1) = true)
    (hmax : ¬ 1 ≤ b.2.maximum) :
    b.2.get (writes (m.encodeWrites c) p) = if b.2 ∈ m.relative then 0 else b.2.get p := by
  obtain ⟨l, l', hsplit, hwrites⟩ := buttonWrites_split hb c.buttons
  obtain ⟨hbefore, hafter, haxes⟩ := h.toWf.after_button hsplit
  have hfield : b.2 ∈ m.fields := List.mem_append_right _ (List.mem_map_of_mem hb)
  have hwf := (h.laid.field b.2 hfield).1
  have hrefused (q : List Byte) : b.2.write q 1 = q := by
    have hbits := (h.laid.usages b hb).2.2
    refine HidField.write_refused (by omega) fun htakes => ?_
    rw [HidField.Takes, if_neg (by omega)] at htakes
    exact hmax htakes.2
  have hin := h.inside (c := c) hp
  -- the relative fields, then what is apart from the button
  have hform : writes (m.encodeWrites c) p =
      writes (l.map (fun b => (b.2, if c.buttons.getLsbD (b.1 - 1) then 1 else 0)) ++
        (l'.map (fun b => (b.2, if c.buttons.getLsbD (b.1 - 1) then 1 else 0)) ++
          [(m.x, c.x), (m.y, c.y), (m.wheel, c.wheel), (m.pan, c.pan)]))
        (writes (m.relative.map fun f => (f, 0)) p) := by
    rw [encodeWrites, hwrites, if_pos hpressed]
    simp only [writes_append]
    have hcons (l : List (HidField × ℤ)) (q : List Byte) :
        writes ((b.2, 1) :: l) q = writes l (b.2.write q 1) := rfl
    rw [hcons, hrefused]
  have hrest : ∀ w ∈ l.map (fun b => (b.2, if c.buttons.getLsbD (b.1 - 1) then (1 : ℤ) else 0)) ++
      (l'.map (fun b => (b.2, if c.buttons.getLsbD (b.1 - 1) then (1 : ℤ) else 0)) ++
        [(m.x, c.x), (m.y, c.y), (m.wheel, c.wheel), (m.pan, c.pan)]),
      w ∈ m.encodeWrites c ∧ w.1.Apart b.2 := by
    simp only [axes, List.mem_cons, List.not_mem_nil, or_false, forall_eq_or_imp, forall_eq]
      at haxes
    intro w hw
    rw [encodeWrites, hwrites]
    simp only [List.mem_append, List.mem_cons, List.not_mem_nil, or_false] at hw ⊢
    rcases hw with hw | hw | hw
    · refine ⟨.inl (.inr (.inl hw)), ?_⟩
      obtain ⟨b', hb', rfl⟩ := List.mem_map.mp hw
      exact hbefore b' hb'
    · refine ⟨.inl (.inr (.inr (.inr hw))), ?_⟩
      obtain ⟨b', hb', rfl⟩ := List.mem_map.mp hw
      exact hafter b' hb'
    · refine ⟨.inr hw, ?_⟩
      rcases hw with rfl | rfl | rfl | rfl
      · exact haxes.1
      · exact haxes.2.1
      · exact haxes.2.2.1
      · exact haxes.2.2.2
  rw [hform, get_writes_apart (fun w hw => by rw [writes_length]; exact hin w (hrest w hw).1)
    fun w hw => (hrest w hw).2]
  have hinRelative : ∀ w ∈ m.relative.map fun f => (f, (0 : ℤ)), w.1.Inside p.length :=
    fun w hw => hin w (by rw [encodeWrites]; simp only [List.mem_append]; exact .inl (.inl hw))
  split
  · rename_i hmem
    exact h.get_zeroed hinRelative hmem
  · rename_i hmem
    refine get_writes_apart hinRelative fun w hw => ?_
    obtain ⟨f, hf, rfl⟩ := List.mem_map.mp hw
    exact (h.moves.known f hf b.2 hfield).resolve_left fun heq => hmem (heq ▸ hf)

/-- The fields of the button and axis writes. -/
theorem mem_fields_of_write {w : HidField × ℤ} {mask : Mask}
    (hw : w ∈ m.buttonWrites mask ++ [(m.x, c.x), (m.y, c.y), (m.wheel, c.wheel),
      (m.pan, c.pan)]) : w.1 ∈ m.fields := by
  rcases List.mem_append.mp hw with hw | hw
  · obtain ⟨b, hb, rfl⟩ := List.mem_map.mp hw
    exact List.mem_append_right _ (List.mem_map_of_mem hb)
  · simp only [List.mem_cons, List.not_mem_nil, or_false] at hw
    rcases hw with rfl | rfl | rfl | rfl <;> simp [fields, axes]

/-- Under writes to the buttons the axes keep what was written to them. -/
theorem Wf.get_axes (h : m.Wf) (hc : m.Carries c) (hp : p.length = m.size) (mask : Mask)
    {l : List (HidField × ℤ)} (hl : ∀ w ∈ l, w.1 ∈ m.buttons.map (·.2)) :
    let q := writes (m.buttonWrites mask ++
      ([(m.x, c.x), (m.y, c.y), (m.wheel, c.wheel), (m.pan, c.pan)] ++ l)) p
    m.x.get q = c.x ∧ m.y.get q = c.y ∧ m.wheel.get q = c.wheel ∧ m.pan.get q = c.pan := by
  obtain ⟨hx, hy, hw, hpan, -⟩ := hc
  obtain ⟨hxwf, hywf, hwwf, hpwf⟩ := h.axis
  have hbehind {f : HidField} (hf : f ∈ m.axes) : ∀ w ∈ l, w.1.Apart f := by
    intro w hw
    obtain ⟨b, hb, heq⟩ := List.mem_map.mp (hl w hw)
    rw [← heq]
    exact (h.laid.axisButton f hf b hb).symm
  have hin : ∀ w ∈ m.buttonWrites mask ++ ([(m.x, c.x), (m.y, c.y), (m.wheel, c.wheel),
      (m.pan, c.pan)] ++ l), w.1.Inside p.length := by
    rw [hp, ← List.append_assoc]
    intro w hw
    refine h.inside ?_
    rcases List.mem_append.mp hw with hw | hw
    · exact mem_fields_of_write hw
    · exact List.mem_append_right _ (hl w hw)
  have haxes := h.laid.axes
  simp only [axes, List.pairwise_cons, List.mem_cons, List.not_mem_nil, or_false,
    forall_eq_or_imp, forall_eq] at haxes
  obtain ⟨⟨hxy, hxw, hxp⟩, ⟨hyw, hyp⟩, hwp, -⟩ := haxes
  dsimp only
  simp only [List.cons_append, List.nil_append] at hin ⊢
  refine ⟨?_, ?_, ?_, ?_⟩
  · refine get_writes hxwf hin hx ?_
    simp only [List.forall_mem_cons]
    exact ⟨hxy.symm, hxw.symm, hxp.symm, hbehind (by simp [axes])⟩
  · rw [List.append_cons] at hin ⊢
    refine get_writes hywf hin hy ?_
    simp only [List.forall_mem_cons]
    exact ⟨hyw.symm, hyp.symm, hbehind (by simp [axes])⟩
  · rw [List.append_cons, List.append_cons] at hin ⊢
    refine get_writes hwwf hin hw ?_
    simp only [List.forall_mem_cons]
    exact ⟨hwp.symm, hbehind (by simp [axes])⟩
  · rw [List.append_cons, List.append_cons, List.append_cons] at hin ⊢
    exact get_writes hpwf hin hpan (hbehind (by simp [axes]))

theorem Parsed.get_axes (h : m.Parsed) (hc : m.Carries c) (hp : p.length = m.size) :
    m.x.get (writes (m.encodeWrites c) p) = c.x ∧ m.y.get (writes (m.encodeWrites c) p) = c.y ∧
      m.wheel.get (writes (m.encodeWrites c) p) = c.wheel ∧
        m.pan.get (writes (m.encodeWrites c) p) = c.pan := by
  have haxes := h.toWf.get_axes hc (p := writes (m.relative.map fun f => (f, 0)) p)
    (by rw [writes_length, hp]) c.buttons (l := []) (by simp)
  rw [List.append_nil] at haxes
  rw [encodeWrites, List.append_assoc, writes_append]
  exact haxes

theorem Parsed.get_relative (h : m.Parsed) (hp : p.length = m.size) {f : HidField}
    (hf : f ∈ m.relative) (hnot : f ∉ m.fields) : f.get (writes (m.encodeWrites c) p) = 0 := by
  have hin := h.inside (c := c) hp
  rw [encodeWrites, List.append_assoc] at hin ⊢
  rw [writes_append, get_writes_apart (fun w hw => by
    rw [writes_length]; exact hin w (List.mem_append_right _ hw)) fun w hw => ?_]
  · exact h.get_zeroed (fun w hw => hin w (List.mem_append_left _ hw)) hf
  · have hmem := mem_fields_of_write hw
    exact ((h.moves.known f hf w.1 hmem).resolve_left fun heq => hnot (heq ▸ hmem)).symm

theorem Parsed.bit_other (h : m.Parsed) (hp : p.length = m.size) {j : ℕ}
    (hrelative : ∀ f ∈ m.relative, ¬ f.Covers j) (hbutton : ∀ b ∈ m.buttons, ¬ b.2.Covers j) :
    bit (writes (m.encodeWrites c) p) j = bit p j := by
  refine bit_writes (h.inside hp) fun w hw => ?_
  rw [encodeWrites, List.append_assoc] at hw
  rcases List.mem_append.mp hw with hw | hw
  · obtain ⟨f, hf, rfl⟩ := List.mem_map.mp hw
    exact hrelative f hf
  · rcases List.mem_append.mp (mem_fields_of_write hw) with hmem | hmem
    · by_cases hbits : w.1.bits = 0
      · rintro ⟨h1, h2⟩
        omega
      · exact hrelative w.1 (h.moves.axes w.1 hmem hbits)
    · obtain ⟨b, hb, heq⟩ := List.mem_map.mp hmem
      exact heq ▸ hbutton b hb

/-- A pressed button reads back set when its range holds 1; otherwise only where no zeroing reaches
it and the buffer had it set. -/
def Pressable (m : MouseProfile) (p : List Byte) (f : HidField) : Prop :=
  1 ≤ f.maximum ∨ f ∉ m.relative ∧ f.get p ≠ 0

theorem Parsed.button_read (h : m.Parsed) (hp : p.length = m.size) {b : ℕ × HidField}
    (hb : b ∈ m.buttons) :
    b.2.get (writes (m.encodeWrites c) p) ≠ 0 ↔
      c.buttons.getLsbD (b.1 - 1) = true ∧ m.Pressable p b.2 := by
  have hfield : b.2 ∈ m.fields := List.mem_append_right _ (List.mem_map_of_mem hb)
  have hwf := (h.laid.field b.2 hfield).1
  have hbits := (h.laid.usages b hb).2.2
  by_cases hpressed : c.buttons.getLsbD (b.1 - 1) = true
  · by_cases hmax : 1 ≤ b.2.maximum
    · have htakes : b.2.Takes (if c.buttons.getLsbD (b.1 - 1) then 1 else 0) := by
        have hmin := hwf.minimum
        rw [if_pos hpressed, HidField.Takes, if_neg (by omega)]
        omega
      rw [h.get_button hp hb htakes, if_pos hpressed]
      simp [hpressed, Pressable, hmax]
    · rw [h.get_refused hp hb hpressed hmax]
      by_cases hmem : b.2 ∈ m.relative
      · simp [Pressable, hmem, hmax]
      · simp [Pressable, hmem, hmax, hpressed]
  · have htakes : b.2.Takes (if c.buttons.getLsbD (b.1 - 1) then 1 else 0) := by
      rw [if_neg hpressed]
      exact HidField.takes_zero hwf
    rw [h.get_button hp hb htakes, if_neg hpressed]
    simp [hpressed]

theorem Wf.button_unique (h : m.Wf) {b b' : ℕ × HidField} (hb : b ∈ m.buttons)
    (hb' : b' ∈ m.buttons) (heq : b.1 = b'.1) : b = b' := by
  by_contra hne
  have hpair : m.buttons.Pairwise fun b c => b.1 ≠ c.1 :=
    h.laid.buttons.imp fun hlt => hlt.1.ne
  have : Std.Symm fun b c : ℕ × HidField => b.1 ≠ c.1 := ⟨fun _ _ h => h.symm⟩
  exact hpair.forall hb hb' hne heq

theorem Parsed.buttonMask_iff (h : m.Parsed) (hp : p.length = m.size)
    (hsubset : c.buttons &&& ~~~m.supported = 0) :
    m.buttonMask (writes (m.encodeWrites c) p) = c.buttons ↔
      ∀ b ∈ m.buttons, c.buttons.getLsbD (b.1 - 1) = true → m.Pressable p b.2 := by
  have hread (k : ℕ) : (m.buttonMask (writes (m.encodeWrites c) p)).getLsbD k = true ↔
      k < 8 ∧ ∃ b ∈ m.buttons, (c.buttons.getLsbD (b.1 - 1) = true ∧ m.Pressable p b.2) ∧
        k = b.1 - 1 := by
    rw [buttonMask_getLsbD]
    refine and_congr_right fun _ => exists_congr fun b => and_congr_right fun hb => ?_
    rw [h.button_read hp hb]
  constructor
  · intro heq b hb hpressed
    have hk := hread (b.1 - 1)
    rw [heq] at hk
    obtain ⟨-, b', hb', ⟨-, hpressable⟩, hindex⟩ := hk.mp hpressed
    have h1 := (h.laid.usages b hb).1
    have h2 := (h.laid.usages b' hb').1
    rwa [h.toWf.button_unique hb hb' (by omega)]
  · intro hall
    refine BitVec.eq_of_getLsbD_eq fun k hk => ?_
    rw [Bool.eq_iff_iff, hread]
    constructor
    · rintro ⟨-, b, -, ⟨hpressed, -⟩, rfl⟩
      exact hpressed
    · intro hpressed
      have hsupported : m.supported.getLsbD k = true := by
        have hbit := congrArg (·.getLsbD k) hsubset
        simp only [BitVec.getLsbD_and, BitVec.getLsbD_not, hpressed, hk, decide_true,
          Bool.true_and, BitVec.ofNat_eq_ofNat, BitVec.getLsbD_zero] at hbit
        simpa using hbit
      obtain ⟨-, b, hb, rfl⟩ := (supported_getLsbD m k).mp hsupported
      exact ⟨hk, b, hb, ⟨hpressed, hall b hb hpressed⟩, rfl⟩

end MouseProfile

/-- A parsed layout keeps its relative fields apart too. -/
theorem parseMouseDescriptor_parsed {d : List Byte} {m : MouseProfile}
    (hm : m ∈ parseMouseDescriptor d) : m.Parsed :=
  { (parseMouseDescriptor_wf d).1 m hm with
    moves := (Parse.keeps_result Parse.keeps_moves hm).2 }

/-- **`encode` round-trips** over every parsed layout exactly when every pressed button can hold 1,
or is left alone in a report that has it set already. -/
theorem encode_roundTrip {d : List Byte} {m : MouseProfile} {c : MouseCommand} {p : List Byte}
    (hm : m ∈ parseMouseDescriptor d) (hc : m.Carries c) (hp : p.length = m.size) :
    m.RoundTrip c p ↔
      ∀ b ∈ m.buttons, c.buttons.getLsbD (b.1 - 1) = true → m.Pressable p b.2 := by
  have h := parseMouseDescriptor_parsed hm
  have hwrites := MouseProfile.encode_writes hc p
  rw [← h.buttonMask_iff hp hc.2.2.2.2]
  constructor
  · intro hround
    have := hround.buttons
    rwa [hwrites] at this
  · intro hmask
    obtain ⟨hx, hy, hw, hpan⟩ := h.get_axes hc hp
    constructor <;> rw [hwrites]
    · exact writes_length _ _
    · exact hx
    · exact hy
    · exact hw
    · exact hpan
    · exact hmask
    · exact fun f hf hnot => h.get_relative hp hf hnot
    · exact fun j hrelative hbutton => h.bit_other hp hrelative hbutton

/-- A mouse with one button whose range is `low` to `high`, and X and Y of eight bits. -/
def buttonDescriptor (low high : Byte) : List Byte :=
  [0x05, 0x01, 0x09, 0x02, 0xa1, 0x01, 0x05, 0x09, 0x19, 0x01, 0x29, 0x01, 0x15, low, 0x25, high,
    0x75, 0x01, 0x95, 0x08, 0x81, 0x02, 0x05, 0x01, 0x09, 0x30, 0x09, 0x31, 0x15, 0x81, 0x25, 0x7f,
    0x75, 0x08, 0x95, 0x02, 0x81, 0x06, 0xc0]

/-- Its layout. -/
def buttonLayout (low high : ℤ) : MouseProfile :=
  { size := 3, x := ⟨8, 8, -127, 127⟩, y := ⟨16, 8, -127, 127⟩
    relative := [⟨8, 8, -127, 127⟩, ⟨16, 8, -127, 127⟩], buttons := [(1, ⟨0, 1, low, high⟩)] }

theorem encode_roundTrip_click :
    (buttonLayout 0 1).RoundTrip { x := -127, y := 5, buttons := 1 } [0, 1, 2] :=
  (encode_roundTrip (d := buttonDescriptor 0 1) (by decide +kernel)
    ⟨by decide, by decide, by decide, by decide, by decide⟩ rfl).mpr
    fun b hb _ => .inl (by
      rw [List.mem_singleton.mp hb])

theorem encode_roundTrip_signedButton :
    buttonLayout (-1) 0 ∈ parseMouseDescriptor (buttonDescriptor 0xff 0) ∧
      (buttonLayout (-1) 0).Carries { buttons := 1 } ∧
        ¬ (buttonLayout (-1) 0).RoundTrip { buttons := 1 } [0, 0, 0] := by
  refine ⟨by decide +kernel, ⟨by decide, by decide, by decide, by decide, by decide⟩, fun h => ?_⟩
  have hmask := h.buttons
  revert hmask
  decide +kernel

end UsbProxy
