import UsbProxy.Hid.RoundTrip
import UsbProxy.Mixer.Shape
import UsbProxy.Mixer.Delivery

/-!
# Physical reports pass through

The physical reports a writer gets are the queued ones, in order.  A report of another layout is not
touched; in the others only the known fields change, and of these an axis only if it gets a synthetic
delta.
-/

namespace UsbProxy

open Bits

/-! ### Rewriting a report -/

namespace HidField

variable {f : HidField} {p : List Byte}

/-- Writing back what was read changes nothing, whether the field takes it or not. -/
theorem write_get (hwf : f.Wf) (hin : f.Inside p.length) : f.write p (f.get p) = p := by
  by_cases hbits : f.bits = 0
  · rw [write, put, if_pos hbits]
  by_cases htakes : f.Takes (f.get p)
  · refine ext_bit (write_length ..) fun j _ => ?_
    by_cases hcovers : f.Covers j
    · -- a run of bits is what it was read as
      have hread := readBits_write hin hwf hbits htakes
      have hvalue : (f.get p % 2 ^ f.bits).toNat = readBits p f.offset f.bits := by
        have hlt := readBits_lt p f.offset f.bits
        have hcast : ((readBits p f.offset f.bits : ℕ) : ℤ) < 2 ^ f.bits := by exact_mod_cast hlt
        unfold get
        rw [if_neg hbits]
        dsimp only
        split
        · rw [Int.sub_emod_right, Int.emod_eq_of_lt (by omega) hcast, Int.toNat_natCast]
        · rw [Int.emod_eq_of_lt (by omega) hcast, Int.toNat_natCast]
      rw [hvalue] at hread
      obtain ⟨hlow, hhigh⟩ := hcovers
      have hbit := congrArg (fun v : ℕ => v.testBit (j - f.offset)) hread
      simp only [testBit_readBits, show j - f.offset < f.bits by omega, decide_true, Bool.true_and,
        show f.offset + (j - f.offset) = j by omega] at hbit
      exact hbit
    · exact bit_write hin j hcovers
  · exact write_refused hbits htakes

end HidField

/-- A write of what is there, among writes to fields apart from it. -/
theorem bit_writes_same {f : HidField} {l l' : List (HidField × ℤ)} {p : List Byte} (hwf : f.Wf)
    (hin : ∀ w ∈ l ++ (f, f.get p) :: l', w.1.Inside p.length)
    (hapart : ∀ w ∈ l ++ l', w.1.Apart f) {j : ℕ} (hj : f.Covers j) :
    bit (writes (l ++ (f, f.get p) :: l') p) j = bit p j := by
  have hbefore : ∀ w ∈ l, w.1.Inside p.length := fun w hw => hin w (List.mem_append_left _ hw)
  have hafter : ∀ w ∈ l', w.1.Inside p.length := fun w hw => hin w (by simp [hw])
  have hfirst : ∀ w ∈ l, ¬ w.1.Covers j := fun w hw hcovers =>
    hapart w (List.mem_append_left _ hw) j hcovers hj
  have hlast : ∀ w ∈ l', ¬ w.1.Covers j := fun w hw hcovers =>
    hapart w (List.mem_append_right _ hw) j hcovers hj
  have hget : f.get (writes l p) = f.get p :=
    get_writes_apart hbefore fun w hw => hapart w (List.mem_append_left _ hw)
  have hself : f.Inside (writes l p).length := by
    rw [writes_length]
    exact hin (f, f.get p) (by simp)
  have hsame : f.write (writes l p) (f.get p) = writes l p := by
    rw [← hget]
    exact HidField.write_get hwf hself
  have hsplit : writes (l ++ (f, f.get p) :: l') p = writes l' (f.write (writes l p) (f.get p)) := by
    rw [writes_append]
    rfl
  rw [hsplit, hsame, bit_writes (fun w hw => by rw [writes_length]; exact hafter w hw) hlast,
    bit_writes hbefore hfirst]

namespace MouseProfile

variable {m : MouseProfile} {data : List Byte} {applied : MouseCommand} {final : Mask}

/-- The axes of a layout with their parts of a command. -/
def deltas (m : MouseProfile) (c : MouseCommand) : List (HidField × ℤ) :=
  [(m.x, c.x), (m.y, c.y), (m.wheel, c.wheel), (m.pan, c.pan)]

/-- The report `data'` is `data` with the synthetic motion `applied` and the buttons `final`. -/
structure Overlaid (m : MouseProfile) (data data' : List Byte) (applied : MouseCommand)
    (final : Mask) : Prop where
  length : data'.length = data.length
  other : ∀ j, (∀ f ∈ m.fields, ¬ f.Covers j) → bit data' j = bit data j
  kept : ∀ d ∈ m.deltas applied, d.2 = 0 → ∀ j, d.1.Covers j → bit data' j = bit data j
  moved : ∀ d ∈ m.deltas applied, d.2 ≠ 0 → d.1.get data' = d.1.get data + d.2 ∧
    d.1.minimum ≤ d.1.get data' ∧ d.1.get data' ≤ d.1.maximum
  button : ∀ b ∈ m.buttons, b.2.minimum = 0 → b.2.maximum = 1 →
    (b.2.get data' ≠ 0 ↔ final.getLsbD (b.1 - 1) = true)
  mask : (∀ b ∈ m.buttons, b.2.minimum = 0 ∧ b.2.maximum = 1) → m.buttonMask data' = final

/-- The writes of `apply_known_fields`. -/
def knownWrites (m : MouseProfile) (data : List Byte) (applied : MouseCommand) (final : Mask) :
    List (HidField × ℤ) :=
  (m.deltas applied).map (fun d => (d.1, d.1.get data + d.2)) ++ m.buttonWrites final

theorem applyKnownFields_writes (m : MouseProfile) (data : List Byte) (applied : MouseCommand)
    (final : Mask) :
    Endpoint.applyKnownFields m data (m.x.get data + applied.x) (m.y.get data + applied.y)
        (m.wheel.get data + applied.wheel) (m.pan.get data + applied.pan) final =
      writes (m.knownWrites data applied final) data := by
  rw [knownWrites, writes_append, ← putButtons_writes]
  rfl

theorem mem_fields_of_knownWrites {d : HidField × ℤ}
    (hd : d ∈ m.knownWrites data applied final) : d.1 ∈ m.fields := by
  rcases List.mem_append.mp hd with hd | hd
  · obtain ⟨v, hv, rfl⟩ := List.mem_map.mp hd
    simp only [deltas, List.mem_cons, List.not_mem_nil, or_false] at hv
    rcases hv with rfl | rfl | rfl | rfl <;> simp [fields, axes]
  · obtain ⟨b, hb, rfl⟩ := List.mem_map.mp hd
    exact List.mem_append_right _ (List.mem_map_of_mem hb)

theorem Wf.knownWrites_inside (hm : m.Wf) (hsize : data.length = m.size) (applied : MouseCommand)
    (final : Mask) :
    ∀ d ∈ m.knownWrites data applied final, d.1.Inside data.length := by
  rw [hsize]
  exact fun d hd => hm.inside (mem_fields_of_knownWrites hd)

/-- The writes of an axis, between writes to fields apart from it. -/
theorem Wf.knownWrites_axis (hm : m.Wf) (data : List Byte) (final : Mask) {d : HidField × ℤ}
    (hd : d ∈ m.deltas applied) :
    d.1.Wf ∧ ∃ l l', m.knownWrites data applied final = l ++ (d.1, d.1.get data + d.2) :: l' ∧
      ∀ v ∈ l ++ l', v.1.Apart d.1 := by
  have haxes := hm.laid.axes
  simp only [axes, List.pairwise_cons, List.mem_cons, List.not_mem_nil, or_false,
    forall_eq_or_imp, forall_eq] at haxes
  obtain ⟨⟨hxy, hxw, hxp⟩, ⟨hyw, hyp⟩, hwp, -⟩ := haxes
  obtain ⟨hx, hy, hwheel, hpan⟩ := hm.axis
  have hbuttons {f : HidField} (hf : f ∈ m.axes) : ∀ v ∈ m.buttonWrites final, v.1.Apart f := by
    intro v hv
    obtain ⟨b, hb, rfl⟩ := List.mem_map.mp hv
    exact (hm.laid.axisButton f hf b hb).symm
  have hform : m.knownWrites data applied final =
      (m.x, m.x.get data + applied.x) :: (m.y, m.y.get data + applied.y) ::
        (m.wheel, m.wheel.get data + applied.wheel) :: (m.pan, m.pan.get data + applied.pan) ::
          m.buttonWrites final := rfl
  simp only [deltas, List.mem_cons, List.not_mem_nil, or_false] at hd
  rcases hd with rfl | rfl | rfl | rfl
  · refine ⟨hx, [], _, hform, ?_⟩
    simp only [List.nil_append, List.forall_mem_cons]
    exact ⟨hxy.symm, hxw.symm, hxp.symm, hbuttons (by simp [axes])⟩
  · refine ⟨hy, [(m.x, m.x.get data + applied.x)], _, hform, ?_⟩
    simp only [List.cons_append, List.nil_append, List.forall_mem_cons]
    exact ⟨hxy, hyw.symm, hyp.symm, hbuttons (by simp [axes])⟩
  · refine ⟨hwheel, [(m.x, m.x.get data + applied.x), (m.y, m.y.get data + applied.y)], _, hform, ?_⟩
    simp only [List.cons_append, List.nil_append, List.forall_mem_cons]
    exact ⟨hxw, hyw, hwp.symm, hbuttons (by simp [axes])⟩
  · refine ⟨hpan, [(m.x, m.x.get data + applied.x), (m.y, m.y.get data + applied.y),
      (m.wheel, m.wheel.get data + applied.wheel)], _, hform, ?_⟩
    simp only [List.cons_append, List.nil_append, List.forall_mem_cons]
    exact ⟨hxp, hyp, hwp, hbuttons (by simp [axes])⟩

/-- A button field of range 0..1 gets its bit. -/
theorem Wf.get_button (hm : m.Wf) (hsize : data.length = m.size) {b : ℕ × HidField}
    (hb : b ∈ m.buttons) (hmin : b.2.minimum = 0) (hmax : b.2.maximum = 1) :
    b.2.get (writes (m.knownWrites data applied final) data) =
      if final.getLsbD (b.1 - 1) then 1 else 0 := by
  obtain ⟨l, l', hsplit, hwrites⟩ := buttonWrites_split hb final
  obtain ⟨-, hafter, -⟩ := hm.after_button hsplit
  have hin := hm.knownWrites_inside hsize applied final
  have hwf := (hm.laid.field b.2 (List.mem_append_right _ (List.mem_map_of_mem hb))).1
  have htakes : b.2.Takes (if final.getLsbD (b.1 - 1) then 1 else 0) := by
    have hbits := (hm.laid.usages b hb).2.2
    rw [HidField.Takes, if_neg (by omega)]
    split <;> omega
  rw [knownWrites, hwrites, ← List.append_assoc] at hin ⊢
  refine get_writes hwf hin htakes fun v hv => ?_
  obtain ⟨b', hb', rfl⟩ := List.mem_map.mp hv
  exact hafter b' hb'

/-- **What `apply_known_fields` does to a report of the layout.** -/
theorem Wf.overlaid (hm : m.Wf) (hsize : data.length = m.size)
    (hfits : ∀ d ∈ m.deltas applied, d.2 ≠ 0 → d.1.bits ≠ 0 ∧
      d.1.minimum ≤ d.1.get data + d.2 ∧ d.1.get data + d.2 ≤ d.1.maximum)
    (hdeclared : final &&& ~~~m.supported = 0) :
    m.Overlaid data (writes (m.knownWrites data applied final) data) applied final := by
  have hin := hm.knownWrites_inside hsize applied final
  have hbutton : ∀ b ∈ m.buttons, b.2.minimum = 0 → b.2.maximum = 1 →
      (b.2.get (writes (m.knownWrites data applied final) data) ≠ 0 ↔
        final.getLsbD (b.1 - 1) = true) := by
    intro b hb hmin hmax
    rw [hm.get_button hsize hb hmin hmax]
    split <;> simp_all
  refine ⟨writes_length .., fun j hj => ?_, fun d hd hzero j hj => ?_, fun d hd hne => ?_, hbutton,
    fun hrange => ?_⟩
  · exact bit_writes hin fun d hd => hj d.1 (mem_fields_of_knownWrites hd)
  · obtain ⟨hwf, l, l', hsplit, hapart⟩ := hm.knownWrites_axis data final hd
    rw [hzero, add_zero] at hsplit
    rw [hsplit] at hin ⊢
    exact bit_writes_same hwf hin hapart hj
  · obtain ⟨hwf, l, l', hsplit, hapart⟩ := hm.knownWrites_axis data final hd
    obtain ⟨hbits, hlow, hhigh⟩ := hfits d hd hne
    have htakes : d.1.Takes (d.1.get data + d.2) := by
      rw [HidField.Takes, if_neg hbits]
      exact ⟨hlow, hhigh⟩
    rw [hsplit] at hin ⊢
    have hget := get_writes hwf hin htakes fun v hv => hapart v (List.mem_append_right _ hv)
    rw [hget]
    exact ⟨rfl, hlow, hhigh⟩
  · refine BitVec.eq_of_getLsbD_eq fun k hk => ?_
    rw [Bool.eq_iff_iff, buttonMask_getLsbD]
    constructor
    · rintro ⟨-, b, hb, hpressed, rfl⟩
      exact (hbutton b hb (hrange b hb).1 (hrange b hb).2).mp hpressed
    · intro hset
      have hsupported : m.supported.getLsbD k = true := by
        by_contra hnot
        have hbit := congrArg (fun mask => BitVec.getLsbD mask k) hdeclared
        rw [Bool.not_eq_true] at hnot
        simp only [BitVec.getLsbD_and, BitVec.getLsbD_not, hset, hnot, hk] at hbit
        simp at hbit
      obtain ⟨-, b, hb, rfl⟩ := (supported_getLsbD m k).mp hsupported
      exact ⟨hk, b, hb, (hbutton b hb (hrange b hb).1 (hrange b hb).2).mpr hset, rfl⟩

/-- The buttons of a report are declared. -/
theorem buttonMask_declared (m : MouseProfile) (p : List Byte) :
    m.buttonMask p &&& ~~~m.supported = 0 := by
  refine BitVec.eq_of_getLsbD_eq fun k hk => ?_
  rw [BitVec.getLsbD_and, BitVec.getLsbD_not]
  by_cases hheld : (m.buttonMask p).getLsbD k = true
  · obtain ⟨hlt, b, hb, -, hindex⟩ := (buttonMask_getLsbD m p k).mp hheld
    have hsupported : m.supported.getLsbD k = true := (supported_getLsbD m k).mpr ⟨hlt, b, hb, hindex⟩
    simp [hsupported]
  · simp [hheld]

/-- No button that was held comes out released. -/
theorem Overlaid.held (hm : m.Wf) {data' : List Byte} {masks : Mask}
    (h : m.Overlaid data data' applied (m.buttonMask data ||| masks)) {b : ℕ × HidField}
    (hb : b ∈ m.buttons) (hmin : b.2.minimum = 0) (hmax : b.2.maximum = 1)
    (hheld : b.2.get data ≠ 0) : b.2.get data' ≠ 0 := by
  obtain ⟨hlow, hhigh, -⟩ := hm.laid.usages b hb
  have hphysical : (m.buttonMask data).getLsbD (b.1 - 1) = true :=
    (buttonMask_getLsbD m data _).mpr ⟨by omega, b, hb, hheld, rfl⟩
  rw [h.button b hb hmin hmax, BitVec.getLsbD_or, hphysical, Bool.true_or]

end MouseProfile

/-! ### First in, first out -/

/-- The reports of an address that no writer took yet, oldest first. -/
def Port.pending (p : Port) : List Io := p.dataQueue ++ p.reader.toList

/-- A report from the device, with the world it reached. -/
structure Arrival where
  world : World
  epNum : ℕ
  data : List Byte

/-- The report as `queue_physical_mouse_report` leaves it. -/
def Arrival.report (r : Arrival) (a : ℕ) : Io :=
  (r.world.queuePhysicalMouseReport a { ep := r.epNum, data := r.data }).2

/-- When it was queued a layout of its interface matched it, and the generation has not changed. -/
def Arrival.Current (r : Arrival) (a : ℕ) (e : Endpoint) : Prop :=
  ∃ e₀, r.world.endpoints a = some e₀ ∧ e₀.generation = e.generation ∧
    (e₀.matchingProfile (r.world.descriptors e₀.interfaceNumber) r.data).isSome = true

namespace World

variable {w : World} {a : ℕ} {e e' : Endpoint} {x : MixerStep}

/-- The physical report a step queues at `a`. -/
def arrivals (w : World) (a : ℕ) : MixerStep → List Arrival
  | .thread (.physical b epNum data) =>
    if b = a ∧ (w.ports a).reader = none then [⟨w, epNum, data⟩] else []
  | _ => []

/-- The physical report a step takes for the writer of `a`. -/
def returned (w : World) (a : ℕ) : MixerStep → List Taken
  | .thread (.take b) =>
    if b = a ∧ (w.ports a).writer = none then
      ((w.endpoints a).bind fun e =>
        (e.take w.clock (w.ports a).dataQueue).2.2.filter (·.io.mousePhysical)).toList
    else []
  | _ => []

/-- The physical reports of a run. -/
def arrivalsIn (w : World) (a : ℕ) : List MixerStep → List Arrival
  | [] => []
  | x :: l => w.arrivals a x ++ (w.mix x).arrivalsIn a l

/-- Those that are returned to the writer, each with the world it was taken in. -/
def returnedIn (w : World) (a : ℕ) : List MixerStep → List (World × Taken)
  | [] => []
  | x :: l => (w.returned a x).map (w, ·) ++ (w.mix x).returnedIn a l

/-- The writer takes the report `io` as `taken`. -/
def Takes (w : World) (a : ℕ) (io : Io) (taken : Taken) : Prop :=
  ∃ e rest, w.endpoints a = some e ∧ (w.ports a).writer = none ∧
    (w.ports a).dataQueue = io :: rest ∧ taken.io.mousePhysical = true ∧
    (e.take w.clock (w.ports a).dataQueue).2.2 = some taken

theorem Arrives.port (h : w.Arrives a x) :
    ∃ r, w.arrivals a x = [r] ∧ w.returned a x = [] ∧
      (w.mix x).ports a = { w.ports a with reader := some (r.report a) } := by
  obtain ⟨epNum, data, rfl, hreader⟩ := h
  refine ⟨⟨w, epNum, data⟩, if_pos ⟨rfl, hreader⟩, rfl, ?_⟩
  rw [mix, env, if_pos hreader, setPort_ports, if_pos rfl]
  rfl

theorem arrivals_nil (h : ¬ w.Arrives a x) : w.arrivals a x = [] := by
  unfold arrivals
  split
  · rename_i b epNum data
    refine if_neg ?_
    rintro ⟨rfl, hreader⟩
    exact h ⟨epNum, data, rfl, hreader⟩
  · rfl

/-- A take hands out the oldest report, or leaves the physical ones alone. -/
theorem take_fifo (he : w.endpoints a = some e) (hw : w.Sound) (hnone : (w.ports a).writer = none) :
    ∃ front, (w.ports a).dataQueue = front ++ (e.take w.clock (w.ports a).dataQueue).2.1 ∧
      List.Forall₂ (w.Takes a) front (w.returned a (.thread (.take a))) := by
  have hidle := ((hw.site a).sound e he).idle hnone
  have htakes (io : Io) (taken : Taken) (rest : List Io)
      (hqueue : (w.ports a).dataQueue = io :: rest) (hphysical : taken.io.mousePhysical = true)
      (htaken : (e.take w.clock (w.ports a).dataQueue).2.2 = some taken) : w.Takes a io taken :=
    ⟨e, rest, he, hnone, hqueue, hphysical, htaken⟩
  have hreturned : w.returned a (.thread (.take a)) =
      ((e.take w.clock (w.ports a).dataQueue).2.2.filter (·.io.mousePhysical)).toList := by
    rw [returned, if_pos ⟨rfl, hnone⟩, he, Option.bind_some]
  rw [hreturned]
  have hspec := Endpoint.take_spec w.clock (w.ports a).dataQueue hidle
  generalize e.take w.clock (w.ports a).dataQueue = r at hspec htakes ⊢
  generalize (w.ports a).dataQueue = fifo at hspec htakes ⊢
  cases hspec with
  | nothing => exact ⟨[], rfl, .nil⟩
  | standalone => exact ⟨[], rfl, .nil⟩
  | raw io rest => exact ⟨[io], rfl, .cons (htakes io _ rest rfl rfl rfl) .nil⟩
  | plain io rest => exact ⟨[io], rfl, .cons (htakes io _ rest rfl rfl rfl) .nil⟩
  | fused io rest => exact ⟨[io], rfl, .cons (htakes io _ rest rfl rfl rfl) .nil⟩

/-- What a step does to the reports that wait. -/
theorem fifo_step (hw : w.Sound) (x : MixerStep) :
    ∃ front, (w.ports a).pending ++ (w.arrivals a x).map (·.report a) =
        front ++ ((w.mix x).ports a).pending ∧
      List.Forall₂ (w.Takes a) front (w.returned a x) := by
  by_cases harrives : w.Arrives a x
  · obtain ⟨r, harrivals, hreturned, hport⟩ := harrives.port
    have hreader : (w.ports a).reader = none := by
      obtain ⟨_, _, -, hreader⟩ := harrives
      exact hreader
    refine ⟨[], ?_, by rw [hreturned]; exact .nil⟩
    rw [harrivals, hport]
    simp [Port.pending, hreader]
  rw [arrivals_nil harrives, List.map_nil, List.append_nil]
  by_cases htake : x = .thread (.take a) ∧ (w.ports a).writer = none ∧ (w.endpoints a).isSome = true
  · obtain ⟨rfl, hnone, hsome⟩ := htake
    obtain ⟨e, he⟩ := Option.isSome_iff_exists.mp hsome
    obtain ⟨front, hfront, htakes⟩ := take_fifo he hw hnone
    refine ⟨front, ?_, htakes⟩
    have hport : (w.mix (.thread (.take a))).ports a = { w.ports a with
        dataQueue := (e.take w.clock (w.ports a).dataQueue).2.1
        writer := (e.take w.clock (w.ports a).dataQueue).2.2 <|> (w.ports a).writer } := by
      rw [mix, env, if_pos hnone, takeMouseReport, he]
      exact (setPort_ports ..).trans (if_pos rfl)
    rw [hport, Port.pending, Port.pending, ← List.append_assoc, ← hfront]
  · have hreturned : w.returned a x = [] := by
      unfold returned
      split
      · rename_i b
        split
        · rename_i hb
          obtain ⟨rfl, hnone⟩ := hb
          have hgone : w.endpoints b = none := by
            by_contra hne
            exact htake ⟨rfl, hnone, Option.isSome_iff_ne_none.mpr hne⟩
          rw [hgone]
          rfl
        · rfl
      · rfl
    refine ⟨[], ?_, by rw [hreturned]; exact .nil⟩
    have hport := w.mix_ports x a
    generalize (w.mix x).ports a = p at hport ⊢
    cases hport with
    | same => rfl
    | read epNum data hreader => exact absurd ⟨epNum, data, rfl, hreader⟩ harrives
    | pushed io hreader => simp [Port.pending, hreader]
    | taken e he hnone => exact absurd ⟨rfl, hnone, by simp [he]⟩ htake
    | written => rfl

theorem Mixed.mix (h : w.Mixed) (x : MixerStep) : (w.mix x).Mixed := by
  obtain ⟨l, rfl⟩ := h
  exact ⟨l ++ [x], by rw [mixes_append, mixes_cons, mixes_nil]⟩

/-- **The physical reports go through the queue in order, each once.** -/
theorem fifo_run (hw : w.Mixed) (l : List MixerStep) :
    ∃ front, (w.ports a).pending ++ (w.arrivalsIn a l).map (·.report a) =
        front ++ ((w.mixes l).ports a).pending ∧
      List.Forall₂ (fun io r => r.1.Mixed ∧ r.1.Takes a io r.2) front (w.returnedIn a l) := by
  induction l generalizing w with
  | nil => exact ⟨[], by simp [arrivalsIn], .nil⟩
  | cons x l ih =>
    obtain ⟨first, hfirst, htakes⟩ := fifo_step (a := a) hw.sound x
    obtain ⟨front, hfront, hrest⟩ := ih (hw.mix x)
    refine ⟨first ++ front, ?_, ?_⟩
    · rw [arrivalsIn, List.map_append, ← List.append_assoc, hfirst, List.append_assoc, hfront,
        mixes_cons, List.append_assoc]
    · refine List.rel_append ?_ hrest
      exact List.forall₂_map_right_iff.mpr (htakes.imp fun _ _ htaken => ⟨hw, htaken⟩)

end World

/-! ### What is known of a report that waits -/

/-- The masks of an item that fits are of declared buttons. -/
theorem SyntheticItem.Splittable.declared {m : MouseProfile} {i : SyntheticItem}
    (hm : m.Wf) (h : i.Splittable m) : (i.persistent ||| i.scheduled) &&& ~~~m.supported = 0 := by
  by_contra hne
  have hmissing : m.Undeclared i.due := (MouseProfile.undeclared_iff hm).mpr hne
  exact h ((MouseProfile.splitMouseCommand_spec hm i.due).1.mpr (.inl hmissing))

/-- The report was read by the layout of the endpoint. -/
structure Io.ReadBy (io : Io) (e : Endpoint) : Prop where
  layout : e.latest ≠ []
  size : io.data.length = e.profile.size
  x : io.physicalX = e.profile.x.get io.data
  y : io.physicalY = e.profile.y.get io.data
  wheel : io.physicalWheel = e.profile.wheel.get io.data
  pan : io.physicalPan = e.profile.pan.get io.data
  buttons : io.physicalButtons = e.profile.buttonMask io.data

theorem Io.ReadBy.kept {io : Io} {e e' : Endpoint} (h : io.ReadBy e) (hkept : e.Kept e') :
    io.ReadBy e' := by
  obtain ⟨hlatest, hprofile⟩ := hkept.layout h.layout
  refine ⟨hlatest, ?_, ?_, ?_, ?_, ?_, ?_⟩ <;> rw [hprofile]
  · exact h.size
  · exact h.x
  · exact h.y
  · exact h.wheel
  · exact h.pan
  · exact h.buttons

/-- Only the bytes and what was read of them matter. -/
theorem Io.ReadBy.of_eq {io io' : Io} {e : Endpoint} (h : io.ReadBy e) (hdata : io'.data = io.data)
    (hx : io'.physicalX = io.physicalX) (hy : io'.physicalY = io.physicalY)
    (hwheel : io'.physicalWheel = io.physicalWheel) (hpan : io'.physicalPan = io.physicalPan)
    (hbuttons : io'.physicalButtons = io.physicalButtons) : io'.ReadBy e := by
  refine ⟨h.layout, ?_, ?_, ?_, ?_, ?_, ?_⟩ <;> rw [hdata]
  · exact h.size
  · exact hx.trans h.x
  · exact hy.trans h.y
  · exact hwheel.trans h.wheel
  · exact hpan.trans h.pan
  · exact hbuttons.trans h.buttons

namespace World

variable {w : World} {a : ℕ} {e e' : Endpoint} {x : MixerStep}

/-- What waits of the current generation was read by its layout. -/
def Readings (w : World) : Prop :=
  ∀ a e io, w.endpoints a = some e → io ∈ (w.ports a).waiting → e.compatible io = true → io.ReadBy e

/-- The endpoint that a physical report reaches. -/
theorem Arrives.endpoint (h : w.Arrives a x) (he' : (w.mix x).endpoints a = some e') :
    ∃ e epNum data, w.endpoints a = some e ∧
      e' = (e.queuePhysical (w.descriptors e.interfaceNumber) w.clock { ep := epNum, data }).1 ∧
      (w.mix x).ports a = { w.ports a with
        reader := some (e.queuePhysical (w.descriptors e.interfaceNumber) w.clock
          { ep := epNum, data }).2 } := by
  obtain ⟨epNum, data, rfl, hreader⟩ := h
  rw [mix, env, if_pos hreader] at he' ⊢
  rw [setPort_ports, if_pos rfl]
  have he' : (w.queuePhysicalMouseReport a { ep := epNum, data }).1.endpoints a = some e' := he'
  unfold queuePhysicalMouseReport at he' ⊢
  cases he : w.endpoints a with
  | none =>
    rw [he] at he'
    rw [show w.endpoints a = some e' from he'] at he
    cases he
  | some e =>
    rw [he] at he'
    dsimp only at he' ⊢
    refine ⟨e, epNum, data, rfl, ?_, rfl⟩
    split at he'
    · simpa [setEndpoint] using he'.symm
    · simpa [setEndpoint] using he'.symm

theorem Readings.mix (hw : w.Sound) (h : w.Readings) (x : MixerStep) : (w.mix x).Readings := by
  intro a e' io he' hio hcompatible
  have hgeneration : io.mouseGeneration = e'.generation := by
    simpa using (Bool.and_eq_true_iff.mp hcompatible).2
  -- what waited before has been read by a layout that stays
  have hold (hmem : io ∈ (w.ports a).waiting) : io.ReadBy e' := by
    rcases (w.mix_moves x).endpoints a e' he' with ⟨e, he, hmove⟩ | ⟨-, hstart⟩
    · have hkept := hmove.kept hw he
      refine (h a e io he hmem ?_).kept hkept
      rwa [Endpoint.compatible, hkept.generation] at hcompatible
    · have hstamp := (hw.site a).stamped io (List.mem_append_left _ hmem)
      have hnew := hstart.generation
      omega
  by_cases harrives : w.Arrives a x
  · obtain ⟨e, epNum, data, he, rfl, hport⟩ := harrives.endpoint he'
    rw [hport] at hio
    simp only [Port.waiting, Option.toList_some, List.singleton_append, List.mem_cons] at hio
    rcases hio with rfl | hio
    · have hspec := e.queuePhysical_spec (w.descriptors e.interfaceNumber) w.clock
        { ep := epNum, data }
      generalize e.queuePhysical (w.descriptors e.interfaceNumber) w.clock { ep := epNum, data } = r
        at hspec hcompatible ⊢
      cases hspec with
      | unmatched => simp [Endpoint.compatible, Endpoint.stamped] at hcompatible
      | matched m hmatch =>
        obtain ⟨-, haccepts, -⟩ := Endpoint.matchingProfile_some hmatch
        obtain ⟨-, hdata, hsame⟩ :=
          matchingProfile_known (hw.layouts e.interfaceNumber) (hw.known a e he) hmatch
        have hprofile : (if e.latest.isEmpty then m else e.profile) = m := by
          split
          · rfl
          · rename_i hlatest
            exact (hsame (by simpa using hlatest)).symm
        have hsize : data.length = m.size := by
          simp only [MouseProfile.accepts, Bool.and_eq_true, beq_iff_eq] at haccepts
          exact haccepts.1
        refine ⟨hdata, ?_, ?_, ?_, ?_, ?_, ?_⟩ <;> dsimp only <;> rw [hprofile]
        · exact hsize
        all_goals rfl
    · exact hold (List.mem_append_right _ hio)
  · refine hold ?_
    have hport := w.mix_ports x a
    generalize (w.mix x).ports a = p at hport hio
    cases hport with
    | same => exact hio
    | read epNum data hreader => exact absurd ⟨epNum, data, rfl, hreader⟩ harrives
    | pushed io' hreader =>
      simp only [Port.waiting, Option.toList_none, List.nil_append, List.mem_append,
        List.mem_singleton] at hio
      simp only [Port.waiting, hreader, Option.toList_some, List.mem_append, List.mem_singleton]
      exact hio.symm
    | taken e he hnone =>
      have hspec := Endpoint.take_spec w.clock (w.ports a).dataQueue
        (((hw.site a).sound e he).idle hnone)
      rcases List.mem_append.mp hio with hio | hio
      · exact List.mem_append_left _ hio
      · exact List.mem_append_right _ (hspec.source.1 io hio)
    | written => exact hio

/-- The committed masks are of declared buttons. -/
def Declared (w : World) : Prop :=
  ∀ a e, w.endpoints a = some e →
    (e.persistentButtons ||| e.scheduledButtons) &&& ~~~e.profile.supported = 0

theorem Declared.mix (hw : w.Sound) (hfits : w.Fits) (h : w.Declared) (x : MixerStep) :
    (w.mix x).Declared := by
  intro a e' he'
  rcases (w.mix_moves x).endpoints a e' he' with ⟨e, he, hmove⟩ | ⟨-, hstart⟩
  · have hkept := hmove.kept hw he
    -- a layout that changes has nothing committed
    have hsame (hmasks : e'.masks = e.masks) :
        (e'.persistentButtons ||| e'.scheduledButtons) &&& ~~~e'.profile.supported = 0 := by
      simp only [Endpoint.masks, Prod.mk.injEq] at hmasks
      rw [hmasks.1, hmasks.2]
      by_cases hlatest : e.latest = []
      · have hzero := (hw.empty he hlatest).2
        simp only [Endpoint.masks, Prod.mk.injEq] at hzero
        rw [hzero.1, hzero.2]
        simp
      · rw [(hkept.layout hlatest).2]
        exact h a e he
    cases hmove with
    | same => exact hsame rfl
    | seeded data e e' hseed =>
      obtain ⟨m, -, rfl⟩ := Option.map_eq_some_iff.mp hseed
      exact hsame rfl
    | queued epNum data e =>
      exact hsame (masks_of_core (queuePhysical_core e _ _ _)).1
    | taken e => exact hsame (take_masks e _ _)
    | enqueued args e => exact hsame (enqueue_masks e _ _)
    | cleared => exact hsame rfl
    | written taken success e hwriter =>
      have hsound := (hw.site a).sound e he
      have hlink := hsound.link
      rw [hwriter] at hlink
      have hmasks : (e.notify taken.io w.clock success).1.masks =
          if e.inflight = true ∧ success = true then
            (taken.io.persistentButtons, taken.io.scheduledButtons)
          else e.masks :=
        notify_masks hlink hsound.order ((hw.site a).managed taken hwriter)
          (hsound.own taken.io (by simp [Port.reports, hwriter]))
      split at hmasks
      · rename_i hwritten
        obtain ⟨item, rest, taken', hqueue, -, hwriter', -, hcarries⟩ := hw.inflight he hwritten.1
        rw [hwriter] at hwriter'
        cases hwriter'
        have hitem : (taken.io.persistentButtons, taken.io.scheduledButtons) =
            (item.persistent, item.scheduled) :=
          congrArg (fun l : Label => (l.persistent, l.scheduled)) hcarries.label
        rw [hitem] at hmasks
        simp only [Endpoint.masks, Prod.mk.injEq] at hmasks
        have hlatest : e.latest ≠ [] := fun hnil => by
          rw [(hw.empty he hnil).1] at hqueue
          cases hqueue
        rw [hmasks.1, hmasks.2, (hkept.layout hlatest).2]
        exact ((hfits a e he).splittable item (by simp [hqueue])).declared
          (hw.profile he (by simp [hqueue]))
      · exact hsame hmasks
  · cases hstart <;> simp [Endpoint.invalidate, Endpoint.updatePending]

theorem Mixed.known (h : w.Mixed) : w.Readings ∧ w.Declared := by
  obtain ⟨l, rfl⟩ := h
  have hrun : ∀ (l : List MixerStep) (u : World), u.Mixed → u.Readings ∧ u.Declared →
      (u.mixes l).Readings ∧ (u.mixes l).Declared := by
    intro l
    induction l with
    | nil => exact fun u _ h => h
    | cons x l ih =>
      intro u hu h
      exact ih (u.mix x) (hu.mix x) ⟨h.1.mix hu.sound x, h.2.mix hu.sound hu.fits x⟩
  refine hrun l {} ⟨[], rfl⟩ ⟨fun a e io he => ?_, fun a e he => ?_⟩
  · cases he
  · cases he

end World

/-! ### What the writer gets -/

namespace Arrival

variable {a : ℕ} {e : Endpoint} (r : Arrival)

@[simp] theorem report_data : (r.report a).data = r.data ∧ (r.report a).ep = r.epNum := by
  unfold report World.queuePhysicalMouseReport
  split
  · exact ⟨rfl, rfl⟩
  · rename_i e₀ _
    dsimp only
    have hspec := e₀.queuePhysical_spec (r.world.descriptors e₀.interfaceNumber) r.world.clock
      { ep := r.epNum, data := r.data }
    generalize e₀.queuePhysical (r.world.descriptors e₀.interfaceNumber) r.world.clock
      { ep := r.epNum, data := r.data } = q at hspec
    cases hspec <;> exact ⟨rfl, rfl⟩

/-- The mixer's own test. -/
theorem compatible_iff : e.compatible (r.report a) = true ↔ r.Current a e := by
  unfold report World.queuePhysicalMouseReport Current
  cases he : r.world.endpoints a with
  | none => simp [Endpoint.compatible]
  | some e₀ =>
    dsimp only
    have hspec := e₀.queuePhysical_spec (r.world.descriptors e₀.interfaceNumber) r.world.clock
      { ep := r.epNum, data := r.data }
    generalize e₀.queuePhysical (r.world.descriptors e₀.interfaceNumber) r.world.clock
      { ep := r.epNum, data := r.data } = q at hspec
    cases hspec with
    | unmatched hnone => simp [Endpoint.compatible, Endpoint.stamped, hnone]
    | matched m hmatch => simp [Endpoint.compatible, Endpoint.matched, Endpoint.stamped, hmatch]

end Arrival

namespace Endpoint

variable {e : Endpoint} {io : Io} {applied : MouseCommand} {taken : Taken}

/-- The motion and the masks the report carries: a part of the front item with its masks, or none
with the committed ones. -/
inductive Attached (e : Endpoint) (taken : Taken) : MouseCommand → Mask → Mask → Prop
  | item (item : SyntheticItem) (tail : List SyntheticItem) (applied : MouseCommand)
      (hqueue : e.synthetic = item :: tail) (hid : taken.io.syntheticItemId = item.id)
      (hmotion : taken.io.motion = applied.motion)
      (hpart : applied.motion.Within item.remaining.motion) :
      Attached e taken applied item.persistent item.scheduled
  | alone (hid : taken.io.syntheticItemId = 0) :
      Attached e taken {} e.persistentButtons e.scheduledButtons

/-- A physical report as the writer of the endpoint gets it. -/
structure Intact (e : Endpoint) (a : ℕ) (r : Arrival) (taken : Taken) : Prop where
  ep : taken.io.ep = r.epNum
  /-- A report of no layout, or of an older one. -/
  untouched : ¬ r.Current a e → taken.io.data = r.data
  overlaid : r.Current a e → ∃ applied persistent scheduled,
    e.Attached taken applied persistent scheduled ∧
      e.profile.Overlaid r.data taken.io.data applied
        (e.profile.buttonMask r.data ||| persistent ||| scheduled)
  /-- No synthetic state clears a physical hold. -/
  held : ∀ b ∈ e.profile.buttons, b.2.minimum = 0 → b.2.maximum = 1 →
    b.2.get r.data ≠ 0 → b.2.get taken.io.data ≠ 0

/-- A report that was read by the layout goes out with the motion and the masks of `overlay`. -/
theorem overlay_overlaid (hm : e.profile.Wf) (hread : io.ReadBy e) {persistent scheduled : Mask}
    (hmasks : (persistent ||| scheduled) &&& ~~~e.profile.supported = 0)
    (hfits : motionFits e.profile io applied = true) :
    e.profile.Overlaid io.data (e.overlay io applied persistent scheduled).data applied
      (e.profile.buttonMask io.data ||| persistent ||| scheduled) := by
  have hdata : (e.overlay io applied persistent scheduled).data =
      writes (e.profile.knownWrites io.data applied
        (e.profile.buttonMask io.data ||| persistent ||| scheduled)) io.data := by
    rw [← MouseProfile.applyKnownFields_writes, ← hread.x, ← hread.y, ← hread.wheel, ← hread.pan,
      ← hread.buttons]
    rfl
  rw [hdata]
  refine hm.overlaid hread.size (fun d hd hne => ?_) ?_
  · have hfield {f : HidField} {delta : ℤ} (hne : delta ≠ 0)
        (h : f.fits (f.get io.data) delta = true) :
        f.bits ≠ 0 ∧ f.minimum ≤ f.get io.data + delta ∧ f.get io.data + delta ≤ f.maximum := by
      simp only [HidField.fits, Bool.or_eq_true, Bool.and_eq_true, beq_iff_eq, bne_iff_ne,
        decide_eq_true_eq] at h
      exact ⟨(h.resolve_left hne).1.1, (h.resolve_left hne).1.2, (h.resolve_left hne).2⟩
    simp only [motionFits, Bool.and_eq_true, hread.x, hread.y, hread.wheel, hread.pan] at hfits
    obtain ⟨⟨⟨hx, hy⟩, hwheel⟩, hpan⟩ := hfits
    simp only [MouseProfile.deltas, List.mem_cons, List.not_mem_nil, or_false] at hd
    rcases hd with rfl | rfl | rfl | rfl
    · exact hfield hne hx
    · exact hfield hne hy
    · exact hfield hne hwheel
    · exact hfield hne hpan
  · rw [BitVec.or_assoc, BitVec.and_or_distrib_right, MouseProfile.buttonMask_declared, hmasks]
    rfl

theorem motionFits_zero (m : MouseProfile) (io : Io) : motionFits m io {} = true := by
  simp [motionFits, HidField.fits]

/-- The outcomes of `take_mouse_report` for a report at the front of the queue. -/
theorem TakeSpec.intact {r : Arrival} {a : ℕ} {rest rest' : List Io} {e' : Endpoint}
    (h : e.TakeSpec (r.report a :: rest) (e', rest', some taken))
    (hphysical : taken.io.mousePhysical = true) (hbare : (r.report a).Bare)
    (hm : e.latest ≠ [] → e.profile.Wf)
    (hread : e.compatible (r.report a) = true → (r.report a).ReadBy e)
    (hdeclared : (e.persistentButtons ||| e.scheduledButtons) &&& ~~~e.profile.supported = 0)
    (hitems : ∀ item ∈ e.synthetic, item.Splittable e.profile) : e.Intact a r taken := by
  obtain ⟨hdata, hep⟩ := r.report_data (a := a)
  -- the reports that `overlay` makes
  have hover {io : Io} {applied : MouseCommand} {persistent scheduled : Mask}
      (hcompatible : e.compatible (r.report a) = true) (hsame : io.ReadBy e)
      (hbytes : io.data = r.data) (hio : taken.io = e.overlay io applied persistent scheduled)
      (hmasks : (persistent ||| scheduled) &&& ~~~e.profile.supported = 0)
      (hfits : motionFits e.profile io applied = true)
      (hattached : e.Attached taken applied persistent scheduled) (hep : io.ep = r.epNum) :
      e.Intact a r taken := by
    have hm := hm hsame.layout
    have hoverlaid := overlay_overlaid hm hsame hmasks hfits
    rw [hbytes, ← hio] at hoverlaid
    have hcurrent := r.compatible_iff.mp hcompatible
    refine ⟨by rw [hio]; exact hep, fun hnot => absurd hcurrent hnot,
      fun _ => ⟨applied, persistent, scheduled, hattached, hoverlaid⟩, ?_⟩
    intro b hb hmin hmax hheld
    rw [BitVec.or_assoc] at hoverlaid
    exact hoverlaid.held hm hb hmin hmax hheld
  cases h with
  | standalone => cases hphysical
  | raw _ _ hlayout =>
    have hnot : ¬ r.Current a e := fun hcurrent => by
      rw [r.compatible_iff.mpr hcurrent] at hlayout
      cases hlayout
    refine ⟨hep, fun _ => hdata, fun hcurrent => absurd hcurrent hnot, fun b _ _ _ hheld => ?_⟩
    rw [show (popped (r.report a)).data = r.data from hdata]
    exact hheld
  | plain _ _ hlayout =>
    have hpopped : (popped (r.report a)).ReadBy e := (hread hlayout).of_eq rfl rfl rfl rfl rfl rfl
    exact hover hlayout hpopped hdata rfl hdeclared (motionFits_zero ..)
      (.alone (congrArg Label.id hbare.1)) hep
  | fused _ _ item tail applied hlayout hqueue happlied =>
    have hdescribed : (e.describe item (popped (r.report a)) applied false false).ReadBy e :=
      (hread hlayout).of_eq rfl rfl rfl rfl rfl rfl
    have hmem : item ∈ e.synthetic := by simp [hqueue]
    have hprofile := hm hdescribed.layout
    have hpart : applied.motion.Within item.remaining.motion ∧
        motionFits e.profile (r.report a) applied = true := by
      rcases happlied with ⟨hfuses, rfl⟩ | ⟨-, -, rfl⟩
      · exact ⟨fusionMotion_within hprofile item, (Bool.and_eq_true_iff.mp hfuses).2⟩
      · exact ⟨Motion.zero_within _, motionFits_zero ..⟩
    exact hover hlayout hdescribed hdata rfl ((hitems item hmem).declared hprofile) hpart.2
      (.item item tail applied hqueue rfl rfl hpart.1) hep

end Endpoint

namespace World

variable {w : World} {a : ℕ} {e : Endpoint}

/-- A report the writer takes is intact. -/
theorem Takes.intact {r : Arrival} {taken : Taken} (hw : w.Mixed) (h : w.Takes a (r.report a) taken) :
    ∃ e, w.endpoints a = some e ∧ (e.expireFront w.clock).Intact a r taken := by
  obtain ⟨e, rest, he, hnone, hqueue, hphysical, htaken⟩ := h
  refine ⟨e, he, ?_⟩
  have hsound := (hw.sound.site a).sound e he
  have hlayout (hlatest : e.latest ≠ []) : e.profile.Wf :=
    (hw.sound.layouts e.interfaceNumber).1 _ (hw.sound.known a e he hlatest)
  have hmem : r.report a ∈ (w.ports a).waiting :=
    List.mem_append_right _ (by simp [hqueue])
  have hspec := Endpoint.take_spec w.clock (w.ports a).dataQueue (hsound.idle hnone)
  have hfits := (hw.fits a e he).expireFront (hw.sound.profile he) w.clock
  generalize e.take w.clock (w.ports a).dataQueue = q at hspec htaken
  obtain ⟨e', rest', o⟩ := q
  obtain rfl : o = some taken := htaken
  rw [hqueue] at hspec
  refine hspec.intact hphysical ((hw.sound.site a).bare _ hmem) hlayout (fun hcompatible => ?_)
    (hw.known.2 a e he) hfits.splittable
  have hread := hw.known.1 a e _ he hmem hcompatible
  exact hread.kept (.of_eq rfl rfl rfl rfl)

/-- The report reaches the writer of `a` as it is to. -/
def Passes (w : World) (a : ℕ) (r : Arrival) (taken : Taken) : Prop :=
  ∃ e, w.endpoints a = some e ∧ (e.expireFront w.clock).Intact a r taken

end World

/-- **Physical reports pass through intact.**  In every run the physical reports the writer of an
address gets are the first of those that arrived, in order and each once, and the others still wait. -/
theorem physical_intact (steps : List MixerStep) (a : ℕ) :
    ∃ passed waiting, ({} : World).arrivalsIn a steps = passed ++ waiting ∧
      ((({} : World).mixes steps).ports a).pending = waiting.map (·.report a) ∧
      List.Forall₂ (fun r taken => taken.1.Passes a r taken.2) passed
        (({} : World).returnedIn a steps) := by
  obtain ⟨front, hfront, htakes⟩ := World.fifo_run (a := a) (w := {}) ⟨[], rfl⟩ steps
  have hempty : ((({} : World).ports a).pending) = [] := rfl
  rw [hempty, List.nil_append] at hfront
  obtain ⟨passed, waiting, hsplit, rfl, hwaiting⟩ := List.map_eq_append_iff.mp hfront
  refine ⟨passed, waiting, hsplit, hwaiting.symm, ?_⟩
  rw [List.forall₂_map_left_iff] at htakes
  exact htakes.imp fun _ _ htaken => htaken.2.intact htaken.1

/-- A queued movement goes out on the next report. -/
example : (({} : World).returnedIn 129 (MixerStep.mouse ++
    [.enqueue { command := { x := 5 } }, .thread (.physical 129 1 [1, 2, 0]), .thread (.push 129),
      .thread (.take 129)])).map (·.2.io.data) = [[0, 0, 0], [1, 7, 0]] := by decide +kernel

end UsbProxy
