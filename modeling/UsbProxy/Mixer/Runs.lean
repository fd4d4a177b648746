import UsbProxy.Mixer.Sound

/-!
# Runs of the mixer

A run of the mixer is a list of steps, each an access of the server or a step of another thread.
`World.Sound` holds in every state of a run, whatever the server does.
-/

namespace UsbProxy

/-- An access of the server to the mixer, or a step of another thread. -/
inductive MixerStep
  | thread (x : EnvStep)
  | enqueue (a : EnqueueArgs)
  | clear
  | takeEvents
  | takeOverflow
  /-- The server records moments. -/
  | record (l : List Mark)
deriving DecidableEq, Repr

def World.mix (w : World) : MixerStep → World
  | .thread x => w.env x
  | .enqueue a => (w.enqueueReport a).1
  | .clear => w.clearSyntheticState.1
  | .takeEvents => w.takeWriterEvents.1
  | .takeOverflow => w.takeWriterOverflow.1
  | .record l => w.notes l

def World.mixes (w : World) (l : List MixerStep) : World := l.foldl World.mix w

/-- A state the mixer reaches from its start. -/
def World.Mixed (w : World) : Prop := ∃ l, w = ({} : World).mixes l

/-- A boot-protocol mouse at address 129 moves by nothing, and the report reaches USB. -/
def MixerStep.mouse : List MixerStep :=
  [.thread (.setProtocol 0 true), .thread (.register 129 0 1 1000),
    .thread (.physical 129 1 [0, 0, 0]), .thread (.push 129), .thread (.take 129),
    .thread (.written 129 true)]

/-- A layout or endpoint change. -/
def MixerStep.isLayout : MixerStep → Bool
  | .thread x => x.isLayout
  | _ => false

/-! ### The invariant -/

/-- The layouts of one interface. -/
def Layouts (profiles : List MouseProfile) : Prop :=
  (∀ m ∈ profiles, m.Wf) ∧ profiles.Pairwise fun m n => m.id ≠ n.id

/-- The layout an endpoint works with is one of its interface. -/
def World.Known (w : World) (e : Endpoint) : Prop :=
  e.latest ≠ [] → e.profile ∈ w.descriptors e.interfaceNumber

namespace World

/-- The endpoints and their threads. -/
structure Wired (w : World) : Prop where
  site : ∀ a, Site w.nextGeneration w.nextEndpointInstance (w.selected = some a) (w.endpoints a)
    (w.ports a)
  distinct : ∀ a b e f, w.endpoints a = some e → w.endpoints b = some f →
    e.generation = f.generation → a = b
  addresses : ∀ a e, w.endpoints a = some e → a < 256

structure Sound (w : World) : Prop extends Wired w where
  layouts : ∀ n, Layouts (w.descriptors n)
  reported : ∀ n, Layouts (w.reportDescriptors n)
  known : ∀ a e, w.endpoints a = some e → w.Known e

variable {w w' : World}

theorem Sound.start : Sound ({} : World) :=
  { site := fun a =>
      ⟨by simp, by simp [Port.reports, Port.waiting], by simp [Port.waiting], by simp, by simp⟩
    distinct := by simp
    addresses := by simp
    layouts := fun n => ⟨by simp, .nil⟩
    reported := fun n => ⟨by simp, .nil⟩
    known := by simp }

theorem Wired.congr (h : w.Wired) (h1 : w'.nextGeneration = w.nextGeneration)
    (h2 : w'.nextEndpointInstance = w.nextEndpointInstance) (h3 : w'.endpoints = w.endpoints)
    (h4 : w'.selected = w.selected) (h5 : w'.ports = w.ports) : w'.Wired := by
  refine ⟨?_, ?_, ?_⟩
  · rw [h1, h2, h3, h4, h5]
    exact h.site
  · rw [h3]
    exact h.distinct
  · rw [h3]
    exact h.addresses

/-- Clock, events and history do not matter. -/
theorem Sound.congr (h : w.Sound) (h1 : w'.nextGeneration = w.nextGeneration)
    (h2 : w'.nextEndpointInstance = w.nextEndpointInstance) (h3 : w'.endpoints = w.endpoints)
    (h4 : w'.selected = w.selected) (h5 : w'.ports = w.ports)
    (h6 : w'.descriptors = w.descriptors) (h7 : w'.reportDescriptors = w.reportDescriptors) :
    w'.Sound := by
  refine ⟨h.toWired.congr h1 h2 h3 h4 h5, ?_, ?_, ?_⟩
  · rw [h6]
    exact h.layouts
  · rw [h7]
    exact h.reported
  · intro a e he
    rw [h3] at he
    unfold Known
    rw [h6]
    exact h.known a e he

/-- A step at the address `a`. -/
theorem Wired.at (h : w.Wired) (a : ℕ) (hg : w.nextGeneration ≤ w'.nextGeneration)
    (hi : w.nextEndpointInstance ≤ w'.nextEndpointInstance)
    (hframe : ∀ b, b ≠ a → w'.endpoints b = w.endpoints b ∧ w'.ports b = w.ports b ∧
      (w'.selected = some b ↔ w.selected = some b))
    (hsite : Site w'.nextGeneration w'.nextEndpointInstance (w'.selected = some a)
      (w'.endpoints a) (w'.ports a))
    (hgeneration : ∀ e, w'.endpoints a = some e → w.nextGeneration < e.generation ∨
      ∃ e0, w.endpoints a = some e0 ∧ e0.generation = e.generation)
    (haddress : ∀ e, w'.endpoints a = some e → a < 256) : w'.Wired := by
  -- a generation at `a` is not one of another address
  have hother : ∀ b e f, b ≠ a → w'.endpoints a = some e → w.endpoints b = some f →
      e.generation ≠ f.generation := by
    intro b e f hb he hf heq
    rcases hgeneration e he with hlt | ⟨e0, he0, hsame⟩
    · have := ((h.site b).sound f hf).generation.2
      omega
    · exact hb (h.distinct b a f e0 hf he0 (by omega))
  refine ⟨fun b => ?_, fun b c e f he hf heq => ?_, fun b e he => ?_⟩
  · by_cases hb : b = a
    · exact hb ▸ hsite
    · obtain ⟨h1, h2, h3⟩ := hframe b hb
      rw [h1, h2]
      exact (h.site b).mono hg hi h3.symm
  · by_cases hb : b = a <;> by_cases hc : c = a
    · rw [hb, hc]
    · rw [hb] at he
      rw [(hframe c hc).1] at hf
      exact absurd heq (hother c e f hc he hf)
    · rw [hc] at hf
      rw [(hframe b hb).1] at he
      exact absurd heq.symm (hother b f e hb hf he)
    · rw [(hframe b hb).1] at he
      rw [(hframe c hc).1] at hf
      exact h.distinct b c e f he hf heq
  · by_cases hb : b = a
    · exact hb ▸ haddress e (hb ▸ he)
    · rw [(hframe b hb).1] at he
      exact h.addresses b e he

theorem Sound.at (h : w.Sound) (a : ℕ) (hg : w.nextGeneration ≤ w'.nextGeneration)
    (hi : w.nextEndpointInstance ≤ w'.nextEndpointInstance)
    (hframe : ∀ b, b ≠ a → w'.endpoints b = w.endpoints b ∧ w'.ports b = w.ports b ∧
      (w'.selected = some b ↔ w.selected = some b))
    (hdescriptors : w'.descriptors = w.descriptors)
    (hreported : w'.reportDescriptors = w.reportDescriptors)
    (hsite : Site w'.nextGeneration w'.nextEndpointInstance (w'.selected = some a)
      (w'.endpoints a) (w'.ports a))
    (hgeneration : ∀ e, w'.endpoints a = some e → w.nextGeneration < e.generation ∨
      ∃ e0, w.endpoints a = some e0 ∧ e0.generation = e.generation)
    (haddress : ∀ e, w'.endpoints a = some e → a < 256)
    (hknown : ∀ e, w'.endpoints a = some e → w.Known e) : w'.Sound := by
  refine ⟨h.toWired.at a hg hi hframe hsite hgeneration haddress, hdescriptors ▸ h.layouts,
    hreported ▸ h.reported, fun b e he => ?_⟩
  unfold Known
  rw [hdescriptors]
  by_cases hb : b = a
  · exact hknown e (hb ▸ he)
  · rw [(hframe b hb).1] at he
    exact h.known b e he

/-- An endpoint and its port change, the registry's counters stay. -/
theorem Sound.setAt (h : w.Sound) {a : ℕ} {e e' : Endpoint} {p : Port}
    (he : w.endpoints a = some e)
    (hsite : Site w.nextGeneration w.nextEndpointInstance (w.selected = some a) (some e') p)
    (hgeneration : e'.generation = e.generation) (hknown : w.Known e') :
    ((w.setEndpoint a e').setPort a p).Sound := by
  refine h.at a le_rfl le_rfl (fun b hb => ⟨?_, ?_, Iff.rfl⟩) rfl rfl ?_ (fun e1 he1 => ?_)
    (fun e1 he1 => h.addresses a e he) (fun e1 he1 => ?_)
  · simp [setPort, setEndpoint, Function.update_of_ne hb]
  · simp [setPort, setEndpoint, Function.update_of_ne hb]
  · simpa [setPort, setEndpoint] using hsite
  · simp only [setPort, setEndpoint, Function.update_self, Option.some.injEq] at he1
    exact .inr ⟨e, he, he1 ▸ hgeneration.symm⟩
  · simp only [setPort, setEndpoint, Function.update_self, Option.some.injEq] at he1
    exact he1 ▸ hknown

/-! ### The steps -/

/-- In a known layout the matching profile is the endpoint's own, unless it has none yet. -/
theorem matchingProfile_known {profiles : List MouseProfile} {e : Endpoint} {m : MouseProfile}
    {data : List Bits.Byte} (hlayouts : Layouts profiles)
    (hknown : e.latest ≠ [] → e.profile ∈ profiles)
    (h : e.matchingProfile profiles data = some m) :
    m ∈ profiles ∧ data ≠ [] ∧ (e.latest ≠ [] → m = e.profile) := by
  obtain ⟨hmem, haccepts, hid⟩ := Endpoint.matchingProfile_some h
  refine ⟨hmem, fun hnil => ?_, fun hlatest => ?_⟩
  · have hsize := (hlayouts.1 m hmem).size
    simp only [MouseProfile.accepts, hnil, List.length_nil, Bool.and_eq_true, beq_iff_eq]
      at haccepts
    omega
  · have hnodup : (profiles.map (·.id)).Nodup := List.pairwise_map.mpr hlayouts.2
    exact List.inj_on_of_nodup_map hnodup hmem (hknown hlatest) (hid hlatest)

theorem queuePhysical_core (e : Endpoint) (profiles : List MouseProfile) (now : ℕ) (io : Io) :
    (e.queuePhysical profiles now io).1.core = e.core := by
  have hspec := e.queuePhysical_spec profiles now io
  generalize e.queuePhysical profiles now io = r at hspec
  cases hspec with
  | unmatched h => rfl
  | matched m h => rfl

theorem queuePhysical_known {profiles : List MouseProfile} {e : Endpoint}
    (hlayouts : Layouts profiles) (hknown : e.latest ≠ [] → e.profile ∈ profiles) (now : ℕ)
    (io : Io) :
    ((e.queuePhysical profiles now io).1.latest = [] → e.latest = []) ∧
      ((e.queuePhysical profiles now io).1.latest ≠ [] →
        (e.queuePhysical profiles now io).1.profile ∈ profiles) := by
  have hspec := e.queuePhysical_spec profiles now io
  generalize e.queuePhysical profiles now io = r at hspec
  cases hspec with
  | unmatched h => exact ⟨id, hknown⟩
  | matched m h =>
    obtain ⟨hmem, hdata, -⟩ := matchingProfile_known hlayouts hknown h
    refine ⟨fun hempty => absurd hempty hdata, fun _ => ?_⟩
    dsimp only
    split
    · exact hmem
    · rename_i hlatest
      exact hknown (by simpa using hlatest)

theorem queuePhysical_stamp (e : Endpoint) (profiles : List MouseProfile) (now : ℕ) (io : Io)
    (hbare : io.Bare) :
    (e.queuePhysical profiles now io).2.Bare ∧
      (e.queuePhysical profiles now io).2.mouseGeneration = e.generation ∧
      (e.queuePhysical profiles now io).2.mouseEndpointInstance = e.inst := by
  have hspec := e.queuePhysical_spec profiles now io
  generalize e.queuePhysical profiles now io = r at hspec
  cases hspec with
  | unmatched h => exact ⟨hbare, rfl, rfl⟩
  | matched m h => exact ⟨hbare, rfl, rfl⟩

theorem Sound.select (h : w.Sound) {a : ℕ} {e : Endpoint} (he : w.endpoints a = some e) :
    Sound { w with selected := some (w.selected.getD a) } := by
  refine h.at a le_rfl le_rfl (fun b hb => ⟨rfl, rfl, ?_⟩) rfl rfl ?_ (fun e1 he1 => .inr ⟨e1, he1, rfl⟩)
    (fun e1 he1 => h.addresses a e he) (fun e1 he1 => h.known a e1 he1)
  · cases hsel : w.selected with
    | none => simpa using hb.symm
    | some c => simp
  · have hsite := h.site a
    refine ⟨fun _ => by simp [he], hsite.stamped, hsite.bare, hsite.managed, fun e1 he1 => ?_⟩
    refine (hsite.sound e1 he1).mono le_rfl le_rfl fun hsel => ?_
    simp [hsel]

/-- The reader gets a report. -/
theorem Sound.reader (h : w.Sound) {a : ℕ} {io : Io} (hbare : io.Bare) (hle : io.mouseGeneration ≤ w.nextGeneration)
    (hown : ∀ e, w.endpoints a = some e → io.mouseGeneration = e.generation →
      io.mouseEndpointInstance = e.inst) :
    (w.setPort a { w.ports a with reader := some io }).Sound := by
  have hsite := h.site a
  have hwaiting : ∀ io' ∈ ({ w.ports a with reader := some io } : Port).waiting,
      io' = io ∨ io' ∈ (w.ports a).waiting := by
    intro io' hio'
    simp only [Port.waiting, Option.toList_some, List.singleton_append, List.mem_cons] at hio'
    exact hio'.imp_right (List.mem_append_right _)
  have hreports : ∀ io' ∈ ({ w.ports a with reader := some io } : Port).reports,
      io' = io ∨ io' ∈ (w.ports a).reports := by
    intro io' hio'
    rcases List.mem_append.mp hio' with hio' | hio'
    · exact (hwaiting io' hio').imp_right (List.mem_append_left _)
    · exact .inr (List.mem_append_right _ hio')
  refine h.at a le_rfl le_rfl (fun b hb => ⟨rfl, by simp [setPort, Function.update_of_ne hb],
    Iff.rfl⟩) rfl rfl ?_ (fun e1 he1 => .inr ⟨e1, he1, rfl⟩) (fun e1 he1 => h.addresses a e1 he1)
    (fun e1 he1 => h.known a e1 he1)
  simp only [setPort, Function.update_self]
  refine ⟨hsite.present, fun io' hio' => ?_, fun io' hio' => ?_, hsite.managed, fun e he => ?_⟩
  · rcases hreports io' hio' with rfl | hold
    · exact hle
    · exact hsite.stamped io' hold
  · rcases hwaiting io' hio' with rfl | hold
    · exact hbare
    · exact hsite.bare io' hold
  · refine (hsite.sound e he).setPort (fun io' hio' => ?_) rfl
    rcases hreports io' hio' with rfl | hold
    · exact .inr (hown e he)
    · exact .inl hold

theorem setEndpoint_ports (w : World) (a : ℕ) (e : Endpoint) :
    (w.setEndpoint a e).setPort a (w.ports a) = w.setEndpoint a e := by
  simp [setPort, setEndpoint]

/-- An endpoint changes within the invariant. -/
theorem Sound.setEndpoint (h : w.Sound) {a : ℕ} {e e' : Endpoint} (he : w.endpoints a = some e)
    (hsound : e'.Sound w.nextGeneration w.nextEndpointInstance (w.selected = some a) (w.ports a))
    (hgeneration : e'.generation = e.generation) (hknown : w.Known e') :
    (w.setEndpoint a e').Sound := by
  rw [← setEndpoint_ports]
  exact h.setAt he ((h.site a).setEndpoint hsound) hgeneration hknown

theorem queuePhysicalMouseReport_sound (h : w.Sound) (a : ℕ) (io : Io) :
    (w.queuePhysicalMouseReport a io).1.Sound ∧
      (w.queuePhysicalMouseReport a io).1.ports = w.ports := by
  unfold queuePhysicalMouseReport
  cases he : w.endpoints a with
  | none => exact ⟨h, rfl⟩
  | some e =>
    dsimp only
    have hknown := queuePhysical_known (h.layouts e.interfaceNumber) (h.known a e he) w.clock io
    have hcore := queuePhysical_core e (w.descriptors e.interfaceNumber) w.clock io
    have hspec := e.queuePhysical_spec (w.descriptors e.interfaceNumber) w.clock io
    generalize e.queuePhysical (w.descriptors e.interfaceNumber) w.clock io = r at *
    have hsame : r.1.generation = e.generation ∧ r.1.interfaceNumber = e.interfaceNumber := by
      cases hspec <;> exact ⟨rfl, rfl⟩
    have hset : (w.setEndpoint a r.1).Sound := by
      refine h.setEndpoint he (((h.site a).sound e he).congr hcore hknown.1) hsame.1 ?_
      rw [Known, hsame.2]
      exact hknown.2
    split
    · refine ⟨?_, rfl⟩
      exact hset.select (a := a) (e := r.1) (by simp [World.setEndpoint])
    · exact ⟨hset, rfl⟩

theorem queuePhysicalMouseReport_stamp (h : w.Sound) (a : ℕ) {io : Io} (hbare : io.Bare)
    (hzero : io.mouseGeneration = 0) :
    (w.queuePhysicalMouseReport a io).2.Bare ∧
      (w.queuePhysicalMouseReport a io).2.mouseGeneration ≤
        (w.queuePhysicalMouseReport a io).1.nextGeneration ∧
      ∀ e, (w.queuePhysicalMouseReport a io).1.endpoints a = some e →
        (w.queuePhysicalMouseReport a io).2.mouseGeneration = e.generation →
          (w.queuePhysicalMouseReport a io).2.mouseEndpointInstance = e.inst := by
  unfold queuePhysicalMouseReport
  cases he : w.endpoints a with
  | none =>
    refine ⟨hbare, by simp [hzero], fun e he' => ?_⟩
    rw [he] at he'
    cases he'
  | some e =>
    dsimp only
    have hsound := (h.site a).sound e he
    obtain ⟨h1, h2, h3⟩ := queuePhysical_stamp e (w.descriptors e.interfaceNumber) w.clock io hbare
    have hcore := queuePhysical_core e (w.descriptors e.interfaceNumber) w.clock io
    generalize e.queuePhysical (w.descriptors e.interfaceNumber) w.clock io = r at *
    simp only [Endpoint.core, Prod.mk.injEq] at hcore
    have hinst : r.2.mouseEndpointInstance = r.1.inst := h3.trans hcore.2.2.2.2.1.symm
    have hgen : r.2.mouseGeneration ≤ w.nextGeneration := h2 ▸ hsound.generation.2
    split
    · refine ⟨h1, hgen, fun e' he' _ => ?_⟩
      simp only [setEndpoint, Function.update_self, Option.some.injEq] at he'
      rw [hinst, he']
    · refine ⟨h1, hgen, fun e' he' _ => ?_⟩
      simp only [setEndpoint, Function.update_self, Option.some.injEq] at he'
      rw [hinst, he']

theorem seedMouseReport_sound (h : w.Sound) (a : ℕ) (data : List Bits.Byte) :
    (w.seedMouseReport a data).Sound := by
  unfold seedMouseReport
  cases he : w.endpoints a with
  | none => exact h
  | some e =>
    cases hseed : e.seed (w.descriptors e.interfaceNumber) data with
    | none =>
      simp only [hseed]
      exact h
    | some e' =>
      simp only [hseed]
      obtain ⟨m, hm, rfl⟩ := Option.map_eq_some_iff.mp hseed
      obtain ⟨hmem, hdata, -⟩ :=
        matchingProfile_known (h.layouts e.interfaceNumber) (h.known a e he) hm
      have hlatest : m.putButtons (m.zeroRelative data) 0 ≠ [] := by
        rw [← List.length_pos_iff, MouseProfile.putButtons_length, MouseProfile.zeroRelative_length]
        exact List.length_pos_iff.mpr hdata
      have hset : (w.setEndpoint a { e with
          profile := m, latest := m.putButtons (m.zeroRelative data) 0
          submittedTemplate := m.putButtons (m.zeroRelative data) 0, physicalButtons := 0
          submittedPhysicalButtons := 0 }).Sound :=
        h.setEndpoint he (((h.site a).sound e he).congr rfl fun hempty => absurd hempty hlatest) rfl
          fun _ => hmem
      exact hset.select (Function.update_self a _ _)

theorem push_sound (h : w.Sound) {a : ℕ} {io : Io} (hio : (w.ports a).reader = some io) :
    (w.setPort a { w.ports a with
      dataQueue := (w.ports a).dataQueue ++ [io], reader := none }).Sound := by
  have hsite := h.site a
  have hwaiting : ∀ io' ∈ ({ w.ports a with
      dataQueue := (w.ports a).dataQueue ++ [io], reader := none } : Port).waiting,
      io' ∈ (w.ports a).waiting := by
    intro io' hio'
    simp only [Port.waiting, Option.toList_none, List.nil_append, List.mem_append,
      List.mem_singleton, hio, Option.toList_some] at hio' ⊢
    exact hio'.symm
  have hreports : ∀ io' ∈ ({ w.ports a with
      dataQueue := (w.ports a).dataQueue ++ [io], reader := none } : Port).reports,
      io' ∈ (w.ports a).reports := by
    intro io' hio'
    rcases List.mem_append.mp hio' with hio' | hio'
    · exact List.mem_append_left _ (hwaiting io' hio')
    · exact List.mem_append_right _ hio'
  refine h.at a le_rfl le_rfl (fun b hb => ⟨rfl, by simp [setPort, Function.update_of_ne hb],
    Iff.rfl⟩) rfl rfl ?_ (fun e1 he1 => .inr ⟨e1, he1, rfl⟩) (fun e1 he1 => h.addresses a e1 he1)
    (fun e1 he1 => h.known a e1 he1)
  simp only [setPort, Function.update_self]
  exact ⟨hsite.present, fun io' hio' => hsite.stamped io' (hreports io' hio'),
    fun io' hio' => hsite.bare io' (hwaiting io' hio'), hsite.managed,
    fun e he => (hsite.sound e he).setPort (fun io' hio' => .inl (hreports io' hio')) rfl⟩

/-- Neither a take nor a notification touches the layout of an endpoint. -/
theorem take_layout (e : Endpoint) (now : ℕ) (queue : List Io) :
    (e.take now queue).1.latest = e.latest ∧ (e.take now queue).1.profile = e.profile ∧
      (e.take now queue).1.interfaceNumber = e.interfaceNumber ∧
      (e.take now queue).1.generation = e.generation := by
  cases hin : e.inflight with
  | true => simp [Endpoint.take_inflight queue hin]
  | false =>
    have hspec := Endpoint.take_spec now queue hin
    generalize e.take now queue = r at hspec
    cases hspec <;> exact ⟨rfl, rfl, rfl, rfl⟩

theorem notify_layout (e : Endpoint) (io : Io) (now : ℕ) (success : Bool) :
    (e.notify io now success).1.latest = e.latest ∧
      (e.notify io now success).1.profile = e.profile ∧
      (e.notify io now success).1.interfaceNumber = e.interfaceNumber ∧
      (e.notify io now success).1.generation = e.generation := by
  have hspec := e.notify_spec io now success
  generalize e.notify io now success = r at hspec
  obtain ⟨_, _, _, _, _, h⟩ := e.notePhysical_eq io success
  cases hspec <;> first | exact ⟨rfl, rfl, rfl, rfl⟩ | (rw [h]; exact ⟨rfl, rfl, rfl, rfl⟩)

theorem Known.congr {e e' : Endpoint} (h : w.Known e) (hlatest : e'.latest = e.latest)
    (hprofile : e'.profile = e.profile) (hinterface : e'.interfaceNumber = e.interfaceNumber) :
    w.Known e' := by
  rw [Known, hlatest, hprofile, hinterface]
  exact h

theorem takeMouseReport_sound (h : w.Sound) {a : ℕ} (hwriter : (w.ports a).writer = none) :
    (w.takeMouseReport a).Sound := by
  unfold takeMouseReport
  cases he : w.endpoints a with
  | none => exact h
  | some e =>
    obtain ⟨h1, h2, h3, h4⟩ := take_layout e w.clock (w.ports a).dataQueue
    have hsite := h.site a
    rw [he] at hsite
    exact h.setAt he (hsite.take hwriter w.clock) h4 ((h.known a e he).congr h1 h2 h3)

theorem note_sound (h : w.Sound) (m : Mark) : (w.note m).Sound := h.congr rfl rfl rfl rfl rfl rfl rfl

theorem notes_sound (h : w.Sound) (l : List Mark) : (w.notes l).Sound :=
  h.congr rfl rfl rfl rfl rfl rfl rfl

theorem emit_sound (h : w.Sound) (event : WriterEvent) : (w.emit event).Sound := by
  unfold emit
  split <;> exact h.congr rfl rfl rfl rfl rfl rfl rfl

theorem notifyMouseReportWritten_sound (h : w.Sound) {a : ℕ} {taken : Taken}
    (hwriter : (w.ports a).writer = some taken) (success : Bool) :
    ((w.setPort a { w.ports a with writer := none }).notifyMouseReportWritten a taken
      success).Sound := by
  have hsite := h.site a
  have hwaiting : ({ w.ports a with writer := none } : Port).waiting = (w.ports a).waiting := rfl
  have hreports : ∀ io ∈ ({ w.ports a with writer := none } : Port).reports,
      io ∈ (w.ports a).reports := by
    intro io hio
    simp only [Port.reports, Option.toList_none, List.map_nil, List.append_nil] at hio
    exact List.mem_append_left _ hio
  unfold notifyMouseReportWritten
  have hports : (w.setPort a { w.ports a with writer := none }).endpoints a = w.endpoints a := rfl
  rw [hports]
  cases he : w.endpoints a with
  | none =>
    rw [he] at hsite
    have hset : (w.setPort a { w.ports a with writer := none }).Sound := by
      refine h.at a le_rfl le_rfl (fun b hb => ⟨rfl, by simp [setPort, Function.update_of_ne hb],
        Iff.rfl⟩) rfl rfl ?_ (fun e1 he1 => .inr ⟨e1, he1, rfl⟩)
        (fun e1 he1 => h.addresses a e1 he1) (fun e1 he1 => h.known a e1 he1)
      simp only [setPort, Function.update_self, he]
      exact ⟨hsite.present, fun io hio => hsite.stamped io (hreports io hio), hsite.bare,
        by simp, by simp⟩
    dsimp only
    split
    · exact note_sound hset _
    · exact hset
  | some e =>
    rw [he] at hsite
    have hmanaged := hsite.managed taken hwriter
    obtain ⟨h1, h2, h3, h4⟩ := notify_layout e taken.io w.clock success
    have hset : ((w.setEndpoint a (e.notify taken.io w.clock success).1).setPort a
        { w.ports a with writer := none }).Sound := by
      refine h.setAt he ?_ h4 ((h.known a e he).congr h1 h2 h3)
      exact ⟨fun _ => rfl, fun io hio => hsite.stamped io (hreports io hio), hsite.bare, by simp,
        fun e' he' => by
          cases he'
          exact (hsite.sound e rfl).notify hwriter hmanaged w.clock success⟩
    have hnote (m : Mark) : (if success = true then
        ((w.setEndpoint a (e.notify taken.io w.clock success).1).setPort a
          { w.ports a with writer := none }).note m
        else (w.setEndpoint a (e.notify taken.io w.clock success).1).setPort a
          { w.ports a with writer := none }).Sound := by
      split
      · exact note_sound hset m
      · exact hset
    dsimp only
    split
    · exact hnote _
    · exact emit_sound (hnote _) _

theorem enqueueReport_sound (h : w.Sound) (a : EnqueueArgs) : (w.enqueueReport a).1.Sound := by
  unfold enqueueReport
  cases hsel : w.selected with
  | none => exact h
  | some address =>
    dsimp only
    cases he : w.endpoints address with
    | none => exact h
    | some e =>
      dsimp only
      have hsame : (e.enqueue a w.clock).1.generation = e.generation ∧
          w.Known (e.enqueue a w.clock).1 := by
        have hspec := e.enqueue_spec a w.clock
        generalize e.enqueue a w.clock = r at hspec
        cases hspec <;> exact ⟨rfl, (h.known address e he).congr rfl rfl rfl⟩
      have hset : (w.setEndpoint address (e.enqueue a w.clock).1).Sound :=
        h.setEndpoint he (((h.site address).sound e he).enqueue hsel a w.clock) hsame.1 hsame.2
      split
      · exact note_sound hset _
      · exact hset

theorem clearSyntheticState_sound (h : w.Sound) : w.clearSyntheticState.1.Sound := by
  unfold clearSyntheticState
  dsimp only
  split
  · exact note_sound h _
  · rename_i address hsel
    split
    · exact note_sound h _
    · rename_i e he
      have he : w.endpoints address = some e := he
      exact (note_sound h _).setEndpoint he ((h.site address).sound e he).clear rfl
        ((h.known address e he).congr rfl rfl rfl)

/-! ### Layout changes -/

theorem noteChange_fields (w : World) (a : ℕ) (e : Endpoint) (g : ℕ) :
    ∃ history, w.noteChange a e g = { w with history } := by
  unfold noteChange
  split
  · split <;> exact ⟨_, rfl⟩
  · exact ⟨w.history, rfl⟩

theorem invalidateAt_wired (h : w.Wired) (number a : ℕ) : (invalidateAt number w a).Wired := by
  unfold invalidateAt
  cases he : w.endpoints a with
  | none => exact h
  | some e =>
    dsimp only
    split
    · obtain ⟨history, hnote⟩ := noteChange_fields
        ({ w with nextGeneration := w.nextGeneration + 1 }.setEndpoint a
          (e.invalidate (w.nextGeneration + 1))) a e (w.nextGeneration + 1)
      rw [hnote]
      have hsound := (h.site a).sound e he
      refine h.at a (Nat.le_succ _) le_rfl (fun b hb => ⟨Function.update_of_ne hb _ _, rfl, Iff.rfl⟩)
        ?_ (fun e1 he1 => .inl ?_) fun e1 he1 => h.addresses a e he
      · simp only [setEndpoint, Function.update_self]
        exact (h.site a).renewed (Nat.lt_succ_self _) le_rfl hsound.inst rfl rfl rfl hsound.next
      · simp only [setEndpoint, Function.update_self, Option.some.injEq] at he1
        rw [← he1]
        exact Nat.lt_succ_self _
    · exact h

theorem invalidateAt_fields (w : World) (number a : ℕ) :
    (invalidateAt number w a).descriptors = w.descriptors ∧
      (invalidateAt number w a).reportDescriptors = w.reportDescriptors := by
  unfold invalidateAt
  split
  · exact ⟨rfl, rfl⟩
  · split
    · obtain ⟨history, hnote⟩ := noteChange_fields
        ({ w with nextGeneration := w.nextGeneration + 1 }.setEndpoint a
          (Endpoint.invalidate _ (w.nextGeneration + 1))) a _ (w.nextGeneration + 1)
      rw [hnote]
      exact ⟨rfl, rfl⟩
    · exact ⟨rfl, rfl⟩

/-- What one round leaves at an address. -/
theorem invalidateAt_endpoints {number a b : ℕ} {e' : Endpoint}
    (h : (invalidateAt number w a).endpoints b = some e') :
    (w.endpoints b = some e' ∧ (e'.interfaceNumber = number → b ≠ a)) ∨ e'.latest = [] := by
  unfold invalidateAt at h
  split at h
  · rename_i hnone
    refine .inl ⟨h, fun _ hb => ?_⟩
    rw [hb, hnone] at h
    cases h
  · rename_i e he
    split at h
    · obtain ⟨history, hnote⟩ := noteChange_fields
        ({ w with nextGeneration := w.nextGeneration + 1 }.setEndpoint a
          (e.invalidate (w.nextGeneration + 1))) a e (w.nextGeneration + 1)
      rw [hnote] at h
      by_cases hb : b = a
      · subst hb
        simp only [setEndpoint, Function.update_self, Option.some.injEq] at h
        exact .inr (h ▸ rfl)
      · simp only [setEndpoint, Function.update_of_ne hb] at h
        exact .inl ⟨h, fun _ => hb⟩
    · rename_i hother
      refine .inl ⟨h, fun hnumber hb => ?_⟩
      rw [hb, he] at h
      cases h
      exact hother hnumber

theorem foldl_invalidateAt {number : ℕ} (l : List ℕ) (h : w.Wired) :
    (l.foldl (invalidateAt number) w).Wired ∧
      (l.foldl (invalidateAt number) w).descriptors = w.descriptors ∧
      (l.foldl (invalidateAt number) w).reportDescriptors = w.reportDescriptors ∧
      ∀ b e', (l.foldl (invalidateAt number) w).endpoints b = some e' →
        (w.endpoints b = some e' ∧ (e'.interfaceNumber = number → b ∉ l)) ∨ e'.latest = [] := by
  induction l generalizing w with
  | nil => exact ⟨h, rfl, rfl, fun b e' he' => .inl ⟨he', fun _ => by simp⟩⟩
  | cons a l ih =>
    obtain ⟨h1, h2, h3, h4⟩ := ih (invalidateAt_wired h number a)
    obtain ⟨h5, h6⟩ := invalidateAt_fields w number a
    refine ⟨h1, h2.trans h5, h3.trans h6, fun b e' he' => ?_⟩
    rcases h4 b e' he' with ⟨hb, hl⟩ | hempty
    · rcases invalidateAt_endpoints hb with ⟨hb, ha⟩ | hempty
      · refine .inl ⟨hb, fun hnumber => ?_⟩
        simp only [List.mem_cons, not_or]
        exact ⟨ha hnumber, hl hnumber⟩
      · exact .inr hempty
    · exact .inr hempty

/-- The layouts of an interface change and its endpoints start anew. -/
theorem invalidateInterface_sound {number : ℕ} (h : w.Wired)
    (hlayouts : ∀ n, Layouts (w.descriptors n)) (hreported : ∀ n, Layouts (w.reportDescriptors n))
    (hknown : ∀ a e, w.endpoints a = some e → e.interfaceNumber ≠ number → w.Known e) :
    (w.invalidateInterface number).Sound := by
  have hmem : ∀ a e, w.endpoints a = some e → a ∈ List.range 256 := fun a e he =>
    List.mem_range.mpr (h.addresses a e he)
  unfold invalidateInterface
  generalize List.range 256 = l at hmem ⊢
  obtain ⟨h1, h2, h3, h4⟩ := foldl_invalidateAt l h
  refine ⟨h1, fun n => h2 ▸ hlayouts n, fun n => h3 ▸ hreported n, fun a e he => ?_⟩
  rcases h4 a e he with ⟨he, hnumber⟩ | hempty
  · unfold Known
    rw [h2]
    exact hknown a e he fun hsame => hnumber hsame (hmem a e he)
  · exact fun hne => absurd hempty hne

theorem layouts_update {f : ℕ → List MouseProfile} (h : ∀ n, Layouts (f n)) (number : ℕ)
    {profiles : List MouseProfile} (hp : Layouts profiles) (n : ℕ) :
    Layouts (Function.update f number profiles n) := by
  by_cases hn : n = number
  · subst hn
    rwa [Function.update_self]
  · rw [Function.update_of_ne hn]
    exact h n

theorem learnMouseDescriptor_sound (h : w.Sound) (number : ℕ) (data : List Bits.Byte) :
    (w.learnMouseDescriptor number data).Sound := by
  have hparsed : Layouts (parseMouseDescriptor data) := parseMouseDescriptor_wf data
  have hreported := layouts_update h.reported number hparsed
  unfold learnMouseDescriptor
  dsimp only
  split
  · exact ⟨h.toWired.congr rfl rfl rfl rfl rfl, h.layouts, hreported, h.known⟩
  · refine invalidateInterface_sound (h.toWired.congr rfl rfl rfl rfl rfl)
      (layouts_update h.layouts number hparsed) hreported fun a e he hne => ?_
    simp only [Known, Function.update_of_ne hne]
    exact h.known a e he

theorem setMouseProtocol_sound (h : w.Sound) (number : ℕ) (boot : Bool) :
    (w.setMouseProtocol number boot).Sound := by
  have hnew : Layouts (if boot then [bootProfile] else w.reportDescriptors number) := by
    split
    · exact ⟨by simp [bootProfile_wf], by simp⟩
    · exact h.reported number
  unfold setMouseProtocol
  dsimp only
  refine invalidateInterface_sound (h.toWired.congr rfl rfl rfl rfl rfl)
    (layouts_update h.layouts number hnew) h.reported fun a e he hne => ?_
  simp only [Known, Function.update_of_ne hne]
  exact h.known a e he

theorem registerMouseEndpoint_sound (h : w.Sound) {a : ℕ} (ha : a < 256)
    (number epNum pollUs : ℕ) : (w.registerMouseEndpoint a number epNum pollUs).Sound := by
  unfold registerMouseEndpoint
  dsimp only
  have hset : ({ w with
      nextGeneration := w.nextGeneration + 1
      nextEndpointInstance := w.nextEndpointInstance + 1 }.setEndpoint a {
        info := { epNum, mousePollIntervalUs := if pollUs = 0 then 1000 else pollUs }
        interfaceNumber := number, generation := w.nextGeneration + 1
        inst := w.nextEndpointInstance + 1 }).Sound := by
    refine h.at a (Nat.le_succ _) (Nat.le_succ _)
      (fun b hb => ⟨Function.update_of_ne hb _ _, rfl, Iff.rfl⟩) rfl rfl ?_ (fun e he => .inl ?_)
      (fun _ _ => ha) fun e he => ?_
    · simp only [setEndpoint, Function.update_self]
      exact (h.site a).renewed (Nat.lt_succ_self _) le_rfl ⟨Nat.succ_pos _, le_rfl⟩ rfl rfl rfl
        Nat.one_pos
    · simp only [setEndpoint, Function.update_self, Option.some.injEq] at he
      rw [← he]
      exact Nat.lt_succ_self _
    · simp only [setEndpoint, Function.update_self, Option.some.injEq] at he
      rw [← he]
      exact fun hne => absurd rfl hne
  split
  · exact hset
  · rename_i old _
    obtain ⟨history, hnote⟩ := noteChange_fields ({ w with
      nextGeneration := w.nextGeneration + 1
      nextEndpointInstance := w.nextEndpointInstance + 1 }.setEndpoint a {
        info := { epNum, mousePollIntervalUs := if pollUs = 0 then 1000 else pollUs }
        interfaceNumber := number, generation := w.nextGeneration + 1
        inst := w.nextEndpointInstance + 1 }) a old (w.nextGeneration + 1)
    rw [hnote]
    exact hset.congr rfl rfl rfl rfl rfl rfl rfl

theorem unregisterMouseEndpoint_sound (h : w.Sound) (a : ℕ) :
    (w.unregisterMouseEndpoint a).Sound := by
  have hframe : ∀ b, b ≠ a →
      ((if w.selected = some a then none else w.selected) = some b ↔ w.selected = some b) := by
    intro b hb
    split
    · rename_i hsel
      simp [hsel, hb.symm]
    · rfl
  have hsel : (if w.selected = some a then none else w.selected) ≠ some a := by
    split
    · simp
    · assumption
  have hsite := h.site a
  unfold unregisterMouseEndpoint
  dsimp only
  cases he : w.endpoints a with
  | none =>
    rw [he] at hsite
    refine h.at a le_rfl le_rfl (fun b hb => ⟨rfl, rfl, hframe b hb⟩) rfl rfl ?_
      (fun e1 he1 => .inr ⟨e1, he1, rfl⟩) (fun e1 he1 => h.addresses a e1 he1)
      (fun e1 he1 => h.known a e1 he1)
    simp only [he]
    exact ⟨fun hsela => absurd hsela hsel, hsite.stamped, hsite.bare, hsite.managed, by simp⟩
  | some e =>
    obtain ⟨history, hnote⟩ := noteChange_fields w a e (w.nextGeneration + 1)
    dsimp only
    rw [hnote]
    refine h.at a (Nat.le_succ _) le_rfl
      (fun b hb => ⟨Function.update_of_ne hb _ _, rfl, hframe b hb⟩) rfl rfl ?_
      (fun e1 he1 => ?_) (fun e1 he1 => ?_) (fun e1 he1 => ?_)
    · simp only [Function.update_self]
      exact ⟨fun hsela => absurd hsela hsel,
        fun io hio => (hsite.stamped io hio).trans (Nat.le_succ _), hsite.bare, hsite.managed,
        by simp⟩
    all_goals
      simp only [Function.update_self] at he1
      cases he1

/-! ### Runs -/

theorem env_sound (h : w.Sound) (x : EnvStep) : (w.env x).Sound := by
  cases x with
  | elapse ns => exact h.congr rfl rfl rfl rfl rfl rfl rfl
  | learn number data => exact learnMouseDescriptor_sound h number data
  | setProtocol number boot => exact setMouseProtocol_sound h number boot
  | register a number epNum pollUs =>
    simp only [env]
    split
    · exact registerMouseEndpoint_sound h ‹_› number epNum pollUs
    · exact h
  | unregister a => exact unregisterMouseEndpoint_sound h a
  | seed a data => exact seedMouseReport_sound h a data
  | physical a epNum data =>
    simp only [env]
    split
    · have hbare : ({ ep := epNum, data } : Io).Bare := ⟨rfl, rfl⟩
      obtain ⟨h1, h2⟩ := queuePhysicalMouseReport_sound h a { ep := epNum, data }
      obtain ⟨h3, h4, h5⟩ := queuePhysicalMouseReport_stamp h a hbare rfl
      rw [← h2]
      exact h1.reader h3 h4 h5
    · exact h
  | push a =>
    simp only [env]
    split
    · exact h
    · rename_i io hio
      split
      · exact push_sound h hio
      · exact h
  | take a =>
    simp only [env]
    split
    · exact takeMouseReport_sound h ‹_›
    · exact h
  | written a success =>
    simp only [env]
    split
    · exact h
    · exact notifyMouseReportWritten_sound h ‹_› success

/-- **Every step of the mixer keeps the invariant.** -/
theorem mix_sound (h : w.Sound) (x : MixerStep) : (w.mix x).Sound := by
  cases x with
  | thread x => exact env_sound h x
  | enqueue a => exact enqueueReport_sound h a
  | clear => exact clearSyntheticState_sound h
  | takeEvents | takeOverflow => exact h.congr rfl rfl rfl rfl rfl rfl rfl
  | record l => exact notes_sound h l

theorem mixes_sound (h : w.Sound) (l : List MixerStep) : (w.mixes l).Sound := by
  induction l generalizing w with
  | nil => exact h
  | cons x l ih => exact ih (mix_sound h x)

theorem Mixed.sound (h : w.Mixed) : w.Sound := by
  obtain ⟨l, rfl⟩ := h
  exact mixes_sound Sound.start l

end World

end UsbProxy
