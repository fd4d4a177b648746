import UsbProxy.Lib.Unwinding
import UsbProxy.Mixer.Local

/-!
# Physical telemetry

What a snapshot says of the device depends on the registrations, layout changes, seeds and physical
reports of a run alone: synthetic reports, and what becomes of them, leave no trace in it.
-/

namespace UsbProxy

/-- What an endpoint holds of the device. -/
structure PhysicalSide where
  interfaceNumber : ℕ
  profile : MouseProfile
  latest : List Bits.Byte
  physicalButtons : Mask
  physicalDx : ℤ
  physicalDy : ℤ
  cumulativeX : ℤ
  cumulativeY : ℤ
  generation : ℕ
  inst : ℕ
  physicalReceived : ℕ
  activity : ℕ
deriving DecidableEq, Repr

namespace Endpoint

def physicalSide (e : Endpoint) : PhysicalSide :=
  { interfaceNumber := e.interfaceNumber, profile := e.profile, latest := e.latest
    physicalButtons := e.physicalButtons, physicalDx := e.physicalDx, physicalDy := e.physicalDy
    cumulativeX := e.cumulativeX, cumulativeY := e.cumulativeY, generation := e.generation
    inst := e.inst, physicalReceived := e.physicalReceived, activity := e.activity }

variable {e f : Endpoint}

theorem take_physicalSide (e : Endpoint) (now : ℕ) (queue : List Io) :
    (e.take now queue).1.physicalSide = e.physicalSide := by
  cases hin : e.inflight with
  | true => rw [take_inflight queue hin]
  | false =>
    have hspec := take_spec now queue hin
    generalize e.take now queue = r at hspec
    cases hspec <;> rfl

theorem notify_physicalSide (e : Endpoint) (io : Io) (now : ℕ) (success : Bool) :
    (e.notify io now success).1.physicalSide = e.physicalSide := by
  obtain ⟨_, _, _, _, _, hphysical⟩ := e.notePhysical_eq io success
  have hspec := e.notify_spec io now success
  generalize e.notify io now success = r at hspec
  cases hspec <;> first | rfl | (rw [hphysical]; rfl)

theorem enqueue_physicalSide (e : Endpoint) (args : EnqueueArgs) (now : ℕ) :
    (e.enqueue args now).1.physicalSide = e.physicalSide := by
  have hspec := e.enqueue_spec args now
  generalize e.enqueue args now = r at hspec
  cases hspec <;> rfl

theorem invalidate_physicalSide (h : e.physicalSide = f.physicalSide) (generation : ℕ) :
    (e.invalidate generation).physicalSide = (f.invalidate generation).physicalSide := by
  simp only [physicalSide, PhysicalSide.mk.injEq] at h
  simp only [physicalSide, invalidate, updatePending, h]

theorem matchingProfile_physicalSide (h : e.physicalSide = f.physicalSide)
    (profiles : List MouseProfile) (data : List Bits.Byte) :
    e.matchingProfile profiles data = f.matchingProfile profiles data := by
  simp only [physicalSide, PhysicalSide.mk.injEq] at h
  simp only [matchingProfile, h]

theorem seed_physicalSide (h : e.physicalSide = f.physicalSide) (profiles : List MouseProfile)
    (data : List Bits.Byte) :
    (e.seed profiles data).map physicalSide = (f.seed profiles data).map physicalSide := by
  unfold seed
  rw [matchingProfile_physicalSide h]
  simp only [physicalSide, PhysicalSide.mk.injEq] at h
  cases f.matchingProfile profiles data <;> simp [physicalSide, h]

/-- A physical report does the same to endpoints that agree, whenever it is queued. -/
theorem queuePhysical_physicalSide (h : e.physicalSide = f.physicalSide)
    (profiles : List MouseProfile) (io : Io) (now later : ℕ) :
    (e.queuePhysical profiles now io).1.physicalSide =
        (f.queuePhysical profiles later io).1.physicalSide ∧
      (e.queuePhysical profiles now io).2.mousePhysicalMatch =
        (f.queuePhysical profiles later io).2.mousePhysicalMatch := by
  have hmatch := matchingProfile_physicalSide h profiles io.data
  simp only [physicalSide, PhysicalSide.mk.injEq] at h
  obtain ⟨h1, h2, h3, h4, h5, h6, h7, h8, h9, h10, h11, h12⟩ := h
  have hmatch' (n : ℕ) : { f with physicalBarrier := n }.matchingProfile profiles io.data =
      f.matchingProfile profiles io.data := rfl
  have hmatch'' (n : ℕ) : { e with physicalBarrier := n }.matchingProfile profiles io.data =
      e.matchingProfile profiles io.data := rfl
  unfold queuePhysical
  simp only [hmatch', hmatch'', hmatch]
  cases f.matchingProfile profiles io.data with
  | none => simp [physicalSide, h1, h2, h3, h4, h5, h6, h7, h8, h9, h10, h11, h12]
  | some m => simp [physicalSide, h1, h2, h3, h4, h7, h8, h9, h10, h11, h12]

end Endpoint

namespace World

/-- Two states of the mixer that tell the same of the devices. -/
structure Agree (u v : World) : Prop where
  nextGeneration : u.nextGeneration = v.nextGeneration
  nextEndpointInstance : u.nextEndpointInstance = v.nextEndpointInstance
  descriptors : u.descriptors = v.descriptors
  reportDescriptors : u.reportDescriptors = v.reportDescriptors
  bootProtocol : u.bootProtocol = v.bootProtocol
  selected : u.selected = v.selected
  endpoints : ∀ a, (u.endpoints a).map Endpoint.physicalSide =
    (v.endpoints a).map Endpoint.physicalSide

namespace Agree

variable {u v w : World} {a : ℕ}

theorem refl (w : World) : w.Agree w := ⟨rfl, rfl, rfl, rfl, rfl, rfl, fun _ => rfl⟩

theorem symm (h : u.Agree v) : v.Agree u :=
  ⟨h.1.symm, h.2.symm, h.3.symm, h.4.symm, h.5.symm, h.6.symm, fun a => (h.7 a).symm⟩

theorem trans (h : u.Agree v) (h' : v.Agree w) : u.Agree w :=
  ⟨h.1.trans h'.1, h.2.trans h'.2, h.3.trans h'.3, h.4.trans h'.4, h.5.trans h'.5, h.6.trans h'.6,
    fun a => (h.7 a).trans (h'.7 a)⟩

/-- At an address both have an endpoint, or none. -/
theorem endpoint (h : u.Agree v) (a : ℕ) :
    (u.endpoints a = none ∧ v.endpoints a = none) ∨
      ∃ e f, u.endpoints a = some e ∧ v.endpoints a = some f ∧ e.physicalSide = f.physicalSide := by
  have ha := h.endpoints a
  cases hu : u.endpoints a with
  | none =>
    rw [hu, Option.map_none, eq_comm, Option.map_eq_none_iff] at ha
    exact .inl ⟨rfl, ha⟩
  | some e =>
    rw [hu, Option.map_some, eq_comm, Option.map_eq_some_iff] at ha
    obtain ⟨f, hf, hsame⟩ := ha
    exact .inr ⟨e, f, rfl, hf, hsame.symm⟩

/-- The same change of both at one address. -/
theorem setEndpoint (h : u.Agree v) (a : ℕ) {e f : Endpoint}
    (hsame : e.physicalSide = f.physicalSide) : (u.setEndpoint a e).Agree (v.setEndpoint a f) := by
  refine ⟨h.1, h.2, h.3, h.4, h.5, h.6, fun b => ?_⟩
  by_cases hb : b = a
  · subst hb
    simp only [World.setEndpoint, Function.update_self, Option.map_some, hsame]
  · simp only [World.setEndpoint, Function.update_of_ne hb]
    exact h.endpoints b

/-- A change of an endpoint's synthetic side. -/
theorem moved {e e' : Endpoint} (he : w.endpoints a = some e)
    (hsame : e'.physicalSide = e.physicalSide) : (w.setEndpoint a e').Agree w := by
  refine ⟨rfl, rfl, rfl, rfl, rfl, rfl, fun b => ?_⟩
  by_cases hb : b = a
  · subst hb
    simp only [World.setEndpoint, Function.update_self, he, Option.map_some, hsame]
  · simp only [World.setEndpoint, Function.update_of_ne hb]

/-- What is recorded, and what the threads hold, does not matter. -/
theorem congr {u' v' : World} (h : u.Agree v) (hu : u'.Agree u) (hv : v'.Agree v) :
    u'.Agree v' :=
  hu.trans (h.trans hv.symm)

theorem generations (h : u.Agree v) (g : ℕ) :
    ({ u with nextGeneration := g } : World).Agree { v with nextGeneration := g } :=
  ⟨rfl, h.2, h.3, h.4, h.5, h.6, h.7⟩

theorem noteChange (w : World) (a : ℕ) (e : Endpoint) (g : ℕ) : (w.noteChange a e g).Agree w := by
  obtain ⟨history, hnote⟩ := noteChange_fields w a e g
  rw [hnote]
  exact ⟨rfl, rfl, rfl, rfl, rfl, rfl, fun _ => rfl⟩

theorem invalidateAt (h : u.Agree v) (number a : ℕ) :
    (invalidateAt number u a).Agree (invalidateAt number v a) := by
  unfold World.invalidateAt
  rcases h.endpoint a with ⟨hu, hv⟩ | ⟨e, f, hu, hv, hsame⟩
  · rw [hu, hv]
    exact h
  · rw [hu, hv]
    have hnumber : e.interfaceNumber = f.interfaceNumber :=
      congrArg PhysicalSide.interfaceNumber hsame
    dsimp only
    rw [hnumber, h.nextGeneration]
    split
    · exact ((h.generations _).setEndpoint a (Endpoint.invalidate_physicalSide hsame _)).congr
        (noteChange ..) (noteChange ..)
    · exact h

theorem invalidateInterface (h : u.Agree v) (number : ℕ) :
    (u.invalidateInterface number).Agree (v.invalidateInterface number) := by
  unfold World.invalidateInterface
  generalize List.range 256 = l
  induction l generalizing u v with
  | nil => exact h
  | cons a l ih => exact ih (h.invalidateAt number a)

theorem learn (h : u.Agree v) (number : ℕ) (data : List Bits.Byte) :
    (u.learnMouseDescriptor number data).Agree (v.learnMouseDescriptor number data) := by
  unfold learnMouseDescriptor
  dsimp only
  rw [h.bootProtocol, h.reportDescriptors, h.descriptors]
  split
  · exact ⟨h.1, h.2, rfl, rfl, rfl, h.6, h.7⟩
  · refine invalidateInterface ?_ number
    exact ⟨h.1, h.2, rfl, rfl, rfl, h.6, h.7⟩

theorem setProtocol (h : u.Agree v) (number : ℕ) (boot : Bool) :
    (u.setMouseProtocol number boot).Agree (v.setMouseProtocol number boot) := by
  unfold setMouseProtocol
  dsimp only
  rw [h.bootProtocol, h.reportDescriptors, h.descriptors]
  refine invalidateInterface ?_ number
  exact ⟨h.1, h.2, rfl, rfl, rfl, h.6, h.7⟩

theorem register (h : u.Agree v) (a number epNum pollUs : ℕ) :
    (u.registerMouseEndpoint a number epNum pollUs).Agree
      (v.registerMouseEndpoint a number epNum pollUs) := by
  have hcounters : ({ u with
        nextGeneration := u.nextGeneration + 1
        nextEndpointInstance := u.nextEndpointInstance + 1 } : World).Agree
      { v with
        nextGeneration := u.nextGeneration + 1
        nextEndpointInstance := u.nextEndpointInstance + 1 } :=
    ⟨rfl, rfl, h.3, h.4, h.5, h.6, h.7⟩
  have hset (f : Endpoint) := hcounters.setEndpoint a (show f.physicalSide = f.physicalSide from rfl)
  unfold registerMouseEndpoint
  dsimp only
  rw [← h.nextGeneration, ← h.nextEndpointInstance]
  rcases h.endpoint a with ⟨hu, hv⟩ | ⟨e, f, hu, hv, -⟩
  · rw [hu, hv]
    exact hset _
  · rw [hu, hv]
    exact (hset _).congr (noteChange ..) (noteChange ..)

theorem unregister (h : u.Agree v) (a : ℕ) :
    (u.unregisterMouseEndpoint a).Agree (v.unregisterMouseEndpoint a) := by
  unfold unregisterMouseEndpoint
  dsimp only
  rw [h.selected]
  rcases h.endpoint a with ⟨hu, hv⟩ | ⟨e, f, hu, hv, -⟩
  · rw [hu, hv]
    exact ⟨h.1, h.2, h.3, h.4, h.5, rfl, h.7⟩
  · rw [hu, hv]
    dsimp only
    have hnote := h.congr (noteChange u a e (u.nextGeneration + 1))
      (noteChange v a f (v.nextGeneration + 1))
    refine ⟨congrArg (· + 1) h.1, hnote.2, hnote.3, hnote.4, hnote.5, rfl, fun b => ?_⟩
    by_cases hb : b = a
    · subst hb
      simp only [Function.update_self]
    · simp only [Function.update_of_ne hb]
      exact h.endpoints b

theorem select (h : u.Agree v) (a : ℕ) :
    ({ u with selected := some (u.selected.getD a) } : World).Agree
      { v with selected := some (v.selected.getD a) } :=
  ⟨h.1, h.2, h.3, h.4, h.5, by rw [h.selected], h.7⟩

theorem seed (h : u.Agree v) (a : ℕ) (data : List Bits.Byte) :
    (u.seedMouseReport a data).Agree (v.seedMouseReport a data) := by
  unfold seedMouseReport
  rcases h.endpoint a with ⟨hu, hv⟩ | ⟨e, f, hu, hv, hsame⟩
  · rw [hu, hv]
    exact h
  · rw [hu, hv]
    have hnumber : e.interfaceNumber = f.interfaceNumber :=
      congrArg PhysicalSide.interfaceNumber hsame
    have hseed := Endpoint.seed_physicalSide hsame (v.descriptors f.interfaceNumber) data
    dsimp only
    rw [hnumber, h.descriptors]
    cases hf : f.seed (v.descriptors f.interfaceNumber) data with
    | none =>
      rw [hf, Option.map_none, Option.map_eq_none_iff] at hseed
      rw [hseed]
      exact h
    | some f' =>
      rw [hf, Option.map_some, Option.map_eq_some_iff] at hseed
      obtain ⟨e', he', hsame'⟩ := hseed
      rw [he']
      exact (h.setEndpoint a hsame').select a

theorem queuePhysical (h : u.Agree v) (a : ℕ) (io : Io) :
    (u.queuePhysicalMouseReport a io).1.Agree (v.queuePhysicalMouseReport a io).1 := by
  unfold queuePhysicalMouseReport
  rcases h.endpoint a with ⟨hu, hv⟩ | ⟨e, f, hu, hv, hsame⟩
  · rw [hu, hv]
    exact h
  · rw [hu, hv]
    have hnumber : e.interfaceNumber = f.interfaceNumber :=
      congrArg PhysicalSide.interfaceNumber hsame
    obtain ⟨hside, hmatch⟩ := Endpoint.queuePhysical_physicalSide hsame
      (v.descriptors f.interfaceNumber) io u.clock v.clock
    dsimp only
    rw [hnumber, h.descriptors, hmatch]
    split
    · exact (h.setEndpoint a hside).select a
    · exact h.setEndpoint a hside

/-- An access to the selected endpoint that leaves its physical side. -/
theorem onSelected {f : Endpoint → Endpoint} (hf : ∀ e, (f e).physicalSide = e.physicalSide)
    {history : List Mark} :
    ({ w with endpoints := w.onSelected f, history } : World).Agree w := by
  refine ⟨rfl, rfl, rfl, rfl, rfl, rfl, fun b => ?_⟩
  dsimp only
  unfold World.onSelected
  split
  · rw [Option.map_map]
    exact congrArg (Option.map · (w.endpoints b)) (funext hf)
  · rfl

end Agree

/-- The registrations, layout changes, seeds and physical reports among the steps, as far as their
thread is ready for them. -/
def physicalStep (w : World) : MixerStep → Option EnvStep
  | .thread (.physical a epNum data) =>
    if (w.ports a).reader = none then some (.physical a epNum data) else none
  | .thread (.seed a data) => some (.seed a data)
  | .thread x => if x.isLayout then some x else none
  | _ => none

theorem physicalStep_some {w : World} {x : MixerStep} {s : EnvStep}
    (h : w.physicalStep x = some s) :
    x = .thread s ∧ (s.isLayout = true ∨ (∃ a data, s = .seed a data) ∨
      ∃ a epNum data, s = .physical a epNum data ∧ (w.ports a).reader = none) := by
  unfold physicalStep at h
  split at h
  · rename_i a epNum data
    split at h
    · rename_i hreader
      cases h
      exact ⟨rfl, .inr (.inr ⟨a, epNum, data, rfl, hreader⟩)⟩
    · cases h
  · cases h
    exact ⟨rfl, .inr (.inl ⟨_, _, rfl⟩)⟩
  · split at h
    · rename_i hlayout
      cases h
      exact ⟨rfl, .inl hlayout⟩
    · cases h
  · cases h

/-- A step of synthetic activity, or one of a thread that does not reach the mixer, tells nothing. -/
theorem mix_agree {w : World} {x : MixerStep} (h : w.physicalStep x = none) :
    (w.mix x).Agree w := by
  have hsilent {u : World} {ports : ℕ → Port} {clock : ℕ} {writerEvents : List WriterEvent}
      {writerOverflow : Bool} {history : List Mark} (hu : u.Agree w) :
      ({ u with ports, clock, writerEvents, writerOverflow, history } : World).Agree w :=
    ⟨hu.1, hu.2, hu.3, hu.4, hu.5, hu.6, hu.7⟩
  have hself := Agree.refl w
  cases x with
  | enqueue args =>
    obtain ⟨_, hfields⟩ := w.enqueueReport_fields args
    rw [mix, hfields]
    exact .onSelected fun e => e.enqueue_physicalSide args w.clock
  | clear =>
    rw [mix, clearSyntheticState_fields]
    exact .onSelected (f := Endpoint.clear) fun e => rfl
  | takeEvents | takeOverflow | record => exact hsilent hself
  | thread x =>
    cases x with
    | elapse ns => exact ⟨rfl, rfl, rfl, rfl, rfl, rfl, fun _ => rfl⟩
    | learn | setProtocol | register | unregister | seed => cases h
    | physical a epNum data =>
      have hreader : (w.ports a).reader ≠ none := fun hnone => by
        simp [physicalStep, hnone] at h
      simp only [mix, env, if_neg hreader]
      exact hself
    | push a =>
      simp only [mix, env]
      split
      · exact hself
      · split
        · exact hsilent hself
        · exact hself
    | take a =>
      simp only [mix, env]
      split
      · unfold takeMouseReport
        split
        · exact hself
        · rename_i e he
          exact hsilent (Agree.moved he (e.take_physicalSide _ _))
      · exact hself
    | written a success =>
      simp only [mix, env]
      split
      · exact hself
      · rename_i taken _
        obtain ⟨_, _, _, hfields⟩ := notifyMouseReportWritten_fields
          (w.setPort a { w.ports a with writer := none }) a taken success
        rw [hfields]
        refine ⟨rfl, rfl, rfl, rfl, rfl, rfl, fun b => ?_⟩
        show (Function.update w.endpoints a _ b).map _ = _
        by_cases hb : b = a
        · subst hb
          rw [Function.update_self, Option.map_map]
          exact congrArg (Option.map · (w.endpoints b))
            (funext fun e => e.notify_physicalSide taken.io _ success)
        · rw [Function.update_of_ne hb]

/-- The same physical step tells the same in two states that agree. -/
theorem mix_agree_same {u v : World} {x y : MixerStep} {s : EnvStep} (h : u.Agree v)
    (hx : u.physicalStep x = some s) (hy : v.physicalStep y = some s) :
    (u.mix x).Agree (v.mix y) := by
  obtain ⟨rfl, hu⟩ := physicalStep_some hx
  obtain ⟨rfl, hv⟩ := physicalStep_some hy
  cases s with
  | learn number data => exact h.learn number data
  | setProtocol number boot => exact h.setProtocol number boot
  | register a number epNum pollUs =>
    simp only [mix, env]
    split
    · exact h.register a number epNum pollUs
    · exact h
  | unregister a => exact h.unregister a
  | seed a data => exact h.seed a data
  | physical a epNum data =>
    have hready {w : World} (hw : w.physicalStep (.thread (.physical a epNum data)) =
        some (.physical a epNum data)) : (w.ports a).reader = none := by
      by_contra hreader
      simp [physicalStep, hreader] at hw
    simp only [mix, env, if_pos (hready hx), if_pos (hready hy)]
    have hqueued := h.queuePhysical a { ep := epNum, data }
    exact ⟨hqueued.1, hqueued.2, hqueued.3, hqueued.4, hqueued.5, hqueued.6, hqueued.7⟩
  | elapse | push | take | written => simp [EnvStep.isLayout] at hu

/-- What a snapshot tells of the device. -/
def telemetry (s : EndpointSnapshot) : Bool × ℕ × Mask × (ℤ × ℤ) × (ℤ × ℤ) × ℕ × ℕ :=
  (s.ready, s.generation, s.physical, (s.physicalDx, s.physicalDy), (s.cumulativeX, s.cumulativeY),
    s.activity, s.physicalReceived)

theorem Agree.telemetry {u v : World} (h : u.Agree v) :
    telemetry u.endpointSnapshot = telemetry v.endpointSnapshot := by
  unfold endpointSnapshot
  dsimp only
  rw [h.selected]
  cases v.selected with
  | none => simp [World.telemetry, h.nextGeneration]
  | some a =>
    dsimp only
    rcases h.endpoint a with ⟨hu, hv⟩ | ⟨e, f, hu, hv, hsame⟩
    · rw [hu, hv]
      simp [World.telemetry, h.nextGeneration]
    · rw [hu, hv]
      simp only [Endpoint.physicalSide, PhysicalSide.mk.injEq] at hsame
      dsimp only
      rw [hsame.2.2.1]
      split
      · simp [World.telemetry, h.nextGeneration]
      · simp [World.telemetry, hsame]

end World

/-- **Injected input leaves no trace in the physical telemetry.**  Two runs of the mixer that perform
the same registrations, layout changes, seeds and physical reports, whatever else they do and in
whatever order, have snapshots that tell the same of the device. -/
theorem telemetry_physical (l m : List MixerStep)
    (h : Unwinding.views World.mix World.physicalStep {} l =
      Unwinding.views World.mix World.physicalStep {} m) :
    World.telemetry (({} : World).mixes l).endpointSnapshot =
      World.telemetry (({} : World).mixes m).endpointSnapshot := by
  have hunwinds : Unwinding.Unwinds World.mix World.physicalStep World.Agree :=
    ⟨fun _ _ h => h.symm, fun _ _ _ h hx => (World.mix_agree hx).trans h,
      fun _ _ _ _ _ h hx hy => World.mix_agree_same h hx hy⟩
  exact (hunwinds.runs (World.Agree.refl {}) h).telemetry

/-- The mouse with a motion injected, whose write fails. -/
theorem telemetry_physical_failed :
    World.telemetry (({} : World).mixes MixerStep.mouse).endpointSnapshot =
      World.telemetry (({} : World).mixes (MixerStep.mouse ++
        [.enqueue { command := { x := 5 } }, .thread (.take 129),
          .thread (.written 129 false), .clear])).endpointSnapshot :=
  telemetry_physical _ _ (by decide +kernel)

end UsbProxy
