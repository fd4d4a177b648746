import UsbProxy.Hid.RoundTrip
import Mathlib.Algebra.Order.Floor.Div

/-!
# Splitting a command

`split_mouse_command` takes from every axis as much as one report can carry.  What is left of an
axis then needs one report less, so there are as many parts as the axis needs that needs most.
-/

namespace UsbProxy

/-- Taking a full share, or what is left, takes one off the shares. -/
theorem ceilDiv_sub_min {k : ℕ} (hk : 0 < k) (a : ℕ) : (a - min a k) ⌈/⌉ k = a ⌈/⌉ k - 1 := by
  simp only [Nat.ceilDiv_eq_add_pred_div]
  by_cases ha : a ≤ k
  · rw [min_eq_left ha, Nat.sub_self, Nat.zero_add, Nat.div_eq_of_lt (by omega)]
    have : (a + k - 1) / k < 2 := (Nat.div_lt_iff_lt_mul hk).mpr (by omega)
    omega
  · rw [min_eq_right (by omega), show a - k + k - 1 = a - 1 by omega,
      show a + k - 1 = a - 1 + k by omega, Nat.add_div_right _ hk]
    rfl

namespace HidField

/-- The most one report moves the field in the direction of `n`. -/
def limit (f : HidField) (n : ℤ) : ℕ :=
  if f.bits = 0 then 0 else if 0 < n then f.maximum.toNat else (-f.minimum).toNat

/-- The reports it takes to move the field by `n`. -/
def reports (f : HidField) (n : ℤ) : ℕ := n.natAbs ⌈/⌉ f.limit n

/-- The field does not move in the direction of `n` at all. -/
def Stuck (f : HidField) (n : ℤ) : Prop := n ≠ 0 ∧ f.limit n = 0

instance (f : HidField) (n : ℤ) : Decidable (f.Stuck n) :=
  inferInstanceAs (Decidable (n ≠ 0 ∧ f.limit n = 0))

variable {f : HidField} {n : ℤ}

theorem takePart_stuck (hf : f.Wf) (h : f.Stuck n) : f.takePart n = none := by
  obtain ⟨hn, hlimit⟩ := h
  have hmin := hf.minimum
  have hmax := hf.maximum
  unfold takePart
  unfold limit at hlimit
  by_cases hbits : f.bits = 0
  · rw [if_pos hbits, if_neg hn]
  · rw [if_neg hbits] at hlimit ⊢
    rw [if_pos]
    refine ⟨hn, ?_⟩
    split_ifs at hlimit <;> omega

/-- The part of a move: its sign, as far as the limit goes. -/
theorem takePart_eq (hf : f.Wf) (h : ¬ f.Stuck n) :
    ∃ part, f.takePart n = some part ∧ f.Takes part ∧
      (n - part).natAbs = n.natAbs - min n.natAbs (f.limit n) ∧
      (n - part ≠ 0 → f.limit (n - part) = f.limit n) := by
  have hmin := hf.minimum
  have hmax := hf.maximum
  unfold Stuck limit at h
  unfold takePart Takes limit
  by_cases hbits : f.bits = 0
  · simp only [hbits, if_true, and_true, not_not] at h ⊢
    exact ⟨0, by rw [if_pos h], rfl, by omega, fun _ => trivial⟩
  · simp only [hbits, if_false] at h ⊢
    refine ⟨max f.minimum (min f.maximum n), if_neg ?_, by omega, ?_, ?_⟩
    · rintro ⟨hn, hzero⟩
      refine h ⟨hn, ?_⟩
      split_ifs <;> omega
    · split_ifs <;> omega
    · intro hrest
      split_ifs <;> omega

theorem reports_eq_zero (h : ¬ f.Stuck n) : f.reports n = 0 ↔ n = 0 := by
  unfold Stuck at h
  unfold reports
  by_cases hn : n = 0
  · simp [hn]
  · have hlimit : 0 < f.limit n := Nat.pos_of_ne_zero fun hzero => h ⟨hn, hzero⟩
    rw [Nat.ceilDiv_eq_add_pred_div, Nat.div_eq_zero_iff]
    omega

/-- **One part takes one report off what the axis needs.** -/
theorem takePart_moves (hf : f.Wf) (h : ¬ f.Stuck n) :
    ∃ part, f.takePart n = some part ∧ f.Takes part ∧ ¬ f.Stuck (n - part) ∧
      f.reports (n - part) = f.reports n - 1 := by
  obtain ⟨part, htake, htakes, habs, hlimit⟩ := takePart_eq hf h
  refine ⟨part, htake, htakes, ?_, ?_⟩
  · rintro ⟨hrest, hzero⟩
    refine h ⟨fun hn => ?_, by rw [← hlimit hrest, hzero]⟩
    omega
  · by_cases hn : n = 0
    · have hrest : n - part = 0 := by omega
      rw [hrest, hn]
      simp [reports]
    · have hpos : 0 < f.limit n := Nat.pos_of_ne_zero fun hzero => h ⟨hn, hzero⟩
      unfold reports
      rw [habs]
      by_cases hrest : n - part = 0
      · have hnone : n.natAbs - min n.natAbs (f.limit n) = 0 := by omega
        rw [← ceilDiv_sub_min hpos, hnone, zero_ceilDiv, zero_ceilDiv]
      · rw [hlimit hrest, ceilDiv_sub_min hpos]

end HidField

namespace MouseProfile

/-- An axis of the command has no field, or one that does not move its way. -/
def Stuck (m : MouseProfile) (c : MouseCommand) : Prop :=
  m.x.Stuck c.x ∨ m.y.Stuck c.y ∨ m.wheel.Stuck c.wheel ∨ m.pan.Stuck c.pan

/-- The reports of the axis that needs most, one at least. -/
def reports (m : MouseProfile) (c : MouseCommand) : ℕ :=
  max 1 (max (max (m.x.reports c.x) (m.y.reports c.y))
    (max (m.wheel.reports c.wheel) (m.pan.reports c.pan)))

/-- The layout lacks a button of the command. -/
def Undeclared (m : MouseProfile) (c : MouseCommand) : Prop :=
  ∃ usage, 1 ≤ usage ∧ usage ≤ 8 ∧ c.buttons.getLsbD (usage - 1) = true ∧
    ∀ b ∈ m.buttons, b.1 ≠ usage

/-- The parts are parts of the command and make it up. -/
structure Splits (m : MouseProfile) (c : MouseCommand) (parts : List MouseCommand) : Prop where
  carried : ∀ part ∈ parts, m.Carries part
  buttons : ∀ part ∈ parts, part.buttons = c.buttons
  x : (parts.map MouseCommand.x).sum = c.x
  y : (parts.map MouseCommand.y).sum = c.y
  wheel : (parts.map MouseCommand.wheel).sum = c.wheel
  pan : (parts.map MouseCommand.pan).sum = c.pan
  length : parts.length = m.reports c

variable {m : MouseProfile} {c : MouseCommand}

theorem one_le_reports (m : MouseProfile) (c : MouseCommand) : 1 ≤ m.reports c := le_max_left _ _

theorem splitPart_stuck (hm : m.Wf) (h : m.Stuck c) : m.splitPart c = none := by
  obtain ⟨hx, hy, hw, hp⟩ := hm.axis
  rw [splitPart]
  rcases h with h | h | h | h
  · simp [HidField.takePart_stuck hx h]
  · simp [HidField.takePart_stuck hy h]
  · simp [HidField.takePart_stuck hw h]
  · simp [HidField.takePart_stuck hp h]

/-- **One part takes one report off what the command needs.** -/
theorem splitPart_moves (hm : m.Wf) (h : ¬ m.Stuck c)
    (hbuttons : c.buttons &&& ~~~m.supported = 0) :
    ∃ part, m.splitPart c = some part ∧ m.Carries part ∧ part.buttons = c.buttons ∧
      ¬ m.Stuck (c.minus part) ∧ m.reports (c.minus part) = max 1 (m.reports c - 1) ∧
      ((c.minus part).noMotion = true ↔ m.reports c = 1) := by
  obtain ⟨hx, hy, hw, hp⟩ := hm.axis
  simp only [Stuck, not_or] at h
  obtain ⟨x, hx1, hx2, hx3, hx4⟩ := HidField.takePart_moves hx h.1
  obtain ⟨y, hy1, hy2, hy3, hy4⟩ := HidField.takePart_moves hy h.2.1
  obtain ⟨wheel, hw1, hw2, hw3, hw4⟩ := HidField.takePart_moves hw h.2.2.1
  obtain ⟨pan, hp1, hp2, hp3, hp4⟩ := HidField.takePart_moves hp h.2.2.2
  refine ⟨{ x, y, wheel, pan, buttons := c.buttons }, ?_, ⟨hx2, hy2, hw2, hp2, hbuttons⟩, rfl, ?_, ?_, ?_⟩
  · simp [splitPart, hx1, hy1, hw1, hp1]
  · simp only [Stuck, MouseCommand.minus, not_or]
    exact ⟨hx3, hy3, hw3, hp3⟩
  · simp only [reports, MouseCommand.minus, hx4, hy4, hw4, hp4]
    omega
  · have hzero : (c.minus { x, y, wheel, pan, buttons := c.buttons }).noMotion = true ↔
        m.x.reports (c.x - x) = 0 ∧ m.y.reports (c.y - y) = 0 ∧
          m.wheel.reports (c.wheel - wheel) = 0 ∧ m.pan.reports (c.pan - pan) = 0 := by
      rw [HidField.reports_eq_zero hx3, HidField.reports_eq_zero hy3,
        HidField.reports_eq_zero hw3, HidField.reports_eq_zero hp3]
      simp [MouseCommand.noMotion, MouseCommand.minus, and_assoc]
    rw [hzero, hx4, hy4, hw4, hp4, reports]
    omega

theorem splitLoop_stuck (hm : m.Wf) (h : m.Stuck c) (room : ℕ) : m.splitLoop room c = none := by
  cases room with
  | zero => rfl
  | succ room => simp [splitLoop, splitPart_stuck hm h]

theorem splitLoop_long (hm : m.Wf) (hbuttons : c.buttons &&& ~~~m.supported = 0) {room : ℕ}
    (hroom : room < m.reports c) : m.splitLoop room c = none := by
  induction room generalizing c with
  | zero => rfl
  | succ room ih =>
    by_cases h : m.Stuck c
    · exact splitLoop_stuck hm h _
    · obtain ⟨part, hpart, -, -, -, hrest, hlast⟩ := splitPart_moves hm h hbuttons
      have hmore : (c.minus part).noMotion = false := by
        rw [← Bool.not_eq_true, hlast]
        omega
      have hrest' : room < m.reports (c.minus part) := by omega
      simp [splitLoop, hpart, hmore, ih (c := c.minus part) hbuttons hrest']

/-- The loop ends with the parts of the command. -/
theorem splitLoop_splits (hm : m.Wf) (h : ¬ m.Stuck c)
    (hbuttons : c.buttons &&& ~~~m.supported = 0) {room : ℕ} (hroom : m.reports c ≤ room) :
    ∃ parts, m.splitLoop room c = some parts ∧ m.Splits c parts := by
  induction room generalizing c with
  | zero =>
    have := m.one_le_reports c
    omega
  | succ room ih =>
    obtain ⟨part, hpart, hcarries, hheld, hstuck, hrest, hlast⟩ := splitPart_moves hm h hbuttons
    by_cases hmore : (c.minus part).noMotion = true
    · refine ⟨[part], by simp [splitLoop, hpart, hmore], ?_⟩
      have hone := hlast.mp hmore
      simp only [MouseCommand.noMotion, MouseCommand.minus, Bool.and_eq_true, beq_iff_eq] at hmore
      refine ⟨by simpa using hcarries, by simpa using hheld, ?_, ?_, ?_, ?_, by simp [hone]⟩
      all_goals simp only [List.map_cons, List.map_nil, List.sum_cons, List.sum_nil]; omega
    · have hlong : m.reports c ≠ 1 := fun hone => hmore (hlast.mpr hone)
      have hone := m.one_le_reports c
      obtain ⟨parts, hparts, hsplits⟩ := ih (c := c.minus part) hstuck hbuttons (by omega)
      refine ⟨part :: parts, by simp [splitLoop, hpart, hmore, hparts], ?_, ?_, ?_, ?_, ?_, ?_, ?_⟩
      · exact List.forall_mem_cons.mpr ⟨hcarries, hsplits.carried⟩
      · exact List.forall_mem_cons.mpr ⟨hheld, hsplits.buttons⟩
      · rw [List.map_cons, List.sum_cons, hsplits.x]
        simp [MouseCommand.minus]
      · rw [List.map_cons, List.sum_cons, hsplits.y]
        simp [MouseCommand.minus]
      · rw [List.map_cons, List.sum_cons, hsplits.wheel]
        simp [MouseCommand.minus]
      · rw [List.map_cons, List.sum_cons, hsplits.pan]
        simp [MouseCommand.minus]
      · rw [List.length_cons, hsplits.length, hrest]
        omega

theorem undeclared_iff (hm : m.Wf) : m.Undeclared c ↔ c.buttons &&& ~~~m.supported ≠ 0 := by
  constructor
  · rintro ⟨usage, hlow, hhigh, hheld, hnone⟩ hzero
    have hbit := congrArg (fun mask => BitVec.getLsbD mask (usage - 1)) hzero
    have hunsupported : m.supported.getLsbD (usage - 1) = false := by
      rw [← Bool.not_eq_true, supported_getLsbD]
      rintro ⟨-, b, hb, husage⟩
      have := (hm.laid.usages b hb).1
      exact hnone b hb (by omega)
    simp only [BitVec.getLsbD_and, BitVec.getLsbD_not, hheld, hunsupported,
      show usage - 1 < 8 by omega] at hbit
    simp at hbit
  · intro hne
    by_contra hall
    refine hne (BitVec.eq_of_getLsbD_eq fun k hk => ?_)
    rw [BitVec.getLsbD_and, BitVec.getLsbD_not]
    by_cases hheld : c.buttons.getLsbD k = true
    · have hsupported : m.supported.getLsbD k = true := by
        by_contra hnot
        refine hall ⟨k + 1, by omega, by omega, by simpa using hheld, fun b hb husage => hnot ?_⟩
        exact (supported_getLsbD m k).mpr ⟨hk, b, hb, by omega⟩
      simp [hsupported]
    · simp [hheld]

/-- **A command is split into its parts, or not at all.** -/
theorem splitMouseCommand_spec (hm : m.Wf) (c : MouseCommand) :
    (splitMouseCommand m c = [] ↔ m.Undeclared c ∨ m.Stuck c ∨ 32 < m.reports c) ∧
      (splitMouseCommand m c ≠ [] →
        m.Splits c (splitMouseCommand m c) ∧ m.reports c ≤ 32) := by
  rw [undeclared_iff hm, splitMouseCommand]
  by_cases hbuttons : c.buttons &&& ~~~m.supported ≠ 0
  · rw [if_pos hbuttons]
    exact ⟨⟨fun _ => .inl hbuttons, fun _ => rfl⟩, fun h => absurd rfl h⟩
  rw [if_neg hbuttons]
  have hdeclared : c.buttons &&& ~~~m.supported = 0 := not_not.mp hbuttons
  by_cases hstuck : m.Stuck c
  · simp [splitLoop_stuck hm hstuck, hstuck]
  by_cases hlong : 32 < m.reports c
  · simp [splitLoop_long hm hdeclared hlong, hlong]
  obtain ⟨parts, hparts, hsplits⟩ := splitLoop_splits hm hstuck hdeclared (Nat.le_of_not_lt hlong)
  have hsome : parts ≠ [] := fun hnil => by
    have hlength := hsplits.length
    rw [hnil, reports, List.length_nil] at hlength
    omega
  rw [hparts, Option.getD_some]
  refine ⟨⟨fun hnil => absurd hnil hsome, ?_⟩, fun _ => ⟨hsplits, Nat.le_of_not_lt hlong⟩⟩
  rintro (h | h | h)
  · exact absurd h hbuttons
  · exact absurd h hstuck
  · exact absurd h hlong

end MouseProfile

end UsbProxy
