import UsbProxy.Hid.Motion
import UsbProxy.Mixer.Registered
import UsbProxy.Replay.Configuration
import UsbProxy.Replay.Gadget

/-!
# Runs of the replayed device

What the event loop, the writers and the server leave of the replayer in whatever order they act:
the endpoints are those of the configuration, the mixer knows exactly the IN endpoints among them
and has never seen anything physical, and the report that GET_REPORT and the idle rate repeat is
still.
-/

namespace UsbProxy

open Bits

namespace Replay

variable {d : Device} {g g' : Gadget} {w : World} {P : World → Prop}

/-! ### The mixer under the replayer -/

theorem steady_learn (hP : World.Steady P) (protocol : ℕ → ℕ) (h : P w) :
    P (learn d protocol w) := by
  unfold learn
  generalize d.profile.interfaces = l
  induction l generalizing w with
  | nil => exact h
  | cons i l ih =>
    have hlearn := hP _ (.learn i.number i.report) rfl h
    have hset := hP _ (.setProtocol i.number (protocol i.number == 0)) rfl hlearn
    rw [List.foldl_cons]
    exact ih hset

theorem steady_outfit (hP : World.Steady P) (idle protocol : ℕ → ℕ) {r : World × Endpoint}
    (i : ReplayInterface) (h : P r.1) : P (outfit d idle protocol r i).1 := by
  unfold outfit
  split
  · split
    · exact h
    · exact hP _ (.seed _ _) rfl h
  · exact h

theorem steady_bringUp (hP : World.Steady P) (idle protocol : ℕ → ℕ) (spec : ReplayEndpoint)
    (h : P w) : P (bringUp d idle protocol w spec).1 := by
  unfold bringUp
  split
  · have hregister : P (w.env (.register spec.address spec.interfaceNumber (d.epNum spec.address)
        (pollUs d spec))) := hP _ (.register _ _ _ _) rfl h
    generalize w.env (.register spec.address spec.interfaceNumber (d.epNum spec.address)
      (pollUs d spec)) = u at hregister
    generalize ({ spec } : Endpoint) = e
    generalize d.profile.interfaces = l
    induction l generalizing u e with
    | nil => exact hregister
    | cons i l ih =>
      have hnext := steady_outfit (d := d) hP idle protocol (r := (u, e)) i hregister
      exact ih _ hnext _
  · exact h

theorem steady_bringAllUp (hP : World.Steady P) (idle protocol : ℕ → ℕ)
    (specs : List ReplayEndpoint) (h : P w) : P (bringAllUp d idle protocol w specs).1 := by
  induction specs generalizing w with
  | nil => exact h
  | cons spec specs ih => exact ih (steady_bringUp hP idle protocol spec h)

theorem steady_enable (hP : World.Steady P) (h : P g.world) : P (enable d g).world :=
  steady_bringAllUp hP g.idle g.protocol _ (steady_learn hP g.protocol h)

theorem steady_foldl (hP : World.Steady P) {f : Endpoint → EnvStep}
    (hf : ∀ e, (f e).isSetUp = true) (l : List Endpoint) (h : P w) :
    P (l.foldl (fun w e => w.env (f e)) w) := by
  induction l generalizing w with
  | nil => exact h
  | cons e l ih => exact ih (hP _ (f e) (hf e) h)

theorem steady_disable (hP : World.Steady P) (wrote : ℕ → Bool) (h : P g.world) :
    P (disable g wrote).world := by
  have hunregistered := steady_foldl hP (f := fun e => .unregister e.address) (fun _ => rfl)
    g.endpoints h
  exact steady_foldl hP (f := fun e => .written e.address (wrote e.address)) (fun _ => rfl)
    g.endpoints hunregistered

/-! ### The steps, case by case -/

/-- What a control request does to the gadget. -/
inductive Effect (d : Device) (g : Gadget) (wrote : ℕ → Bool) : Gadget → Prop
  | same : Effect d g wrote g
  | configured (idle protocol : ℕ → ℕ) :
      Effect d g wrote (enable d { disable g wrote with idle, protocol })
  | unconfigured (idle protocol : ℕ → ℕ) :
      Effect d g wrote { disable g wrote with idle, protocol }
  | wakeup (remoteWakeup : Bool) : Effect d g wrote { g with remoteWakeup }
  | idled (idle : ℕ → ℕ) (hit : Endpoint → Bool) (rate : ℕ) :
      Effect d g wrote { g with
        idle, endpoints := g.endpoints.map fun e => if hit e then { e with idle := rate } else e }

theorem classRequest_effect {wrote : ℕ → Bool} {s : CaptureSetup} {data : List Byte}
    (h : classRequest d g wrote s = some (g', data)) : Effect d g wrote g' := by
  unfold classRequest at h
  split at h
  · obtain ⟨g1, h1, h2⟩ := Option.map_eq_some_iff.mp h
    cases h2
    unfold setIdle at h1
    dsimp only at h1
    split at h1
    · cases h1
      exact .idled _ _ _
    · cases h1
  · split at h
    · cases h
      exact .same
    · split at h
      · cases h
        exact .same
      · split at h
        · obtain ⟨g1, h1, h2⟩ := Option.map_eq_some_iff.mp h
          cases h2
          unfold setProtocol at h1
          split at h1
          · cases h1
            exact .configured _ _
          · cases h1
        · split at h
          · obtain ⟨_, -, h2⟩ := Option.map_eq_some_iff.mp h
            cases h2
            exact .same
          · cases h

theorem answer_effect {wrote : ℕ → Bool} {s : CaptureSetup} {data : List Byte}
    (h : answer d g wrote s = some (g', data)) : Effect d g wrote g' := by
  unfold answer at h
  split at h
  · obtain ⟨_, -, h2⟩ := Option.map_eq_some_iff.mp h
    cases h2
    exact .same
  split at h
  · cases h
    exact .same
  split at h
  · cases h
    unfold setConfiguration
    dsimp only
    split
    · exact .unconfigured _ _
    · exact .configured _ _
  split at h
  · cases h
    exact .same
  split at h
  · cases h
    exact .same
  split at h
  · obtain ⟨_, -, h2⟩ := Option.map_eq_some_iff.mp h
    cases h2
    exact .same
  split at h
  · cases h
    exact .wakeup _
  split at h
  · exact classRequest_effect h
  · cases h

theorem control_effect (g : Gadget) (wrote : ℕ → Bool) (s : CaptureSetup) :
    Effect d g wrote (control d g wrote s).1 := by
  unfold control
  split
  · exact .same
  · split
    · exact .same
    · rename_i g' data hanswer
      exact answer_effect hanswer

theorem steady_effect (hP : World.Steady P) {wrote : ℕ → Bool} (heffect : Effect d g wrote g')
    (h : P g.world) : P g'.world := by
  cases heffect with
  | same => exact h
  | configured => exact steady_enable hP (steady_disable hP wrote h)
  | unconfigured => exact steady_disable hP wrote h
  | wakeup => exact h
  | idled => exact h

theorem steady_written (hP : World.Steady P) (a : ℕ) (result : ℤ) (h : P g.world) :
    P (written g a result).world := by
  unfold written
  split
  · exact h
  · split
    · exact h
    · exact hP _ (.written a _) rfl h
    · exact h

/-- **What lasts in the mixer lasts in the replayer.** -/
theorem lasting_step (hP : World.Lasting P) (x : Step) (h : P g.world) : P (step d g x).world := by
  cases x with
  | control s wrote => exact steady_effect hP.steady (control_effect g wrote s) h
  | reset wrote => exact steady_disable hP.steady wrote h
  | wait a => exact h
  | take a =>
    rw [step]
    split
    · exact hP _ (.thread (.take a)) rfl h
    · exact h
  | again a =>
    rw [step]
    split
    · exact h
    · exact h
  | written a result => exact steady_written hP.steady a result h
  | server x =>
    cases x with
    | thread => exact h
    | enqueue args => exact hP _ (.enqueue args) rfl h
    | clear => exact hP _ .clear rfl h
    | takeEvents => exact hP _ .takeEvents rfl h
    | takeOverflow => exact hP _ .takeOverflow rfl h
    | record l => exact hP _ (.record l) rfl h
  | elapse ns => exact hP _ (.thread (.elapse ns)) rfl h

theorem lasting_run (hP : World.Lasting P) (steps : List Step) (h : P g.world) :
    P (run d g steps).world := by
  induction steps generalizing g with
  | nil => exact h
  | cons x steps ih => exact ih (lasting_step hP x h)

/-! ### Where the endpoints are -/

theorem byteAt_lt (b : List Byte) (i : ℕ) : byteAt b i < 256 := (b.getD i 0).isLt

section Registered

variable {a : ℕ}

theorem registered_learn (protocol : ℕ → ℕ) :
    (learn d protocol w).registered a = w.registered a := by
  unfold learn
  generalize d.profile.interfaces = l
  induction l generalizing w with
  | nil => rfl
  | cons i l ih =>
    have hlearn := World.registered_mix (w := w) (a := a)
      (x := .thread (.learn i.number i.report)) (by simp) (by simp)
    have hset := World.registered_mix (w := w.env (.learn i.number i.report)) (a := a)
      (x := .thread (.setProtocol i.number (protocol i.number == 0))) (by simp) (by simp)
    rw [List.foldl_cons, ih]
    exact hset.trans hlearn

theorem registered_outfit (idle protocol : ℕ → ℕ) (r : World × Endpoint) (i : ReplayInterface) :
    (outfit d idle protocol r i).1.registered a = r.1.registered a := by
  unfold outfit
  split
  · split
    · rfl
    · exact World.registered_mix (x := .thread (.seed _ _)) (by simp) (by simp)
  · rfl

theorem registered_bringUp (idle protocol : ℕ → ℕ) (spec : ReplayEndpoint) :
    (bringUp d idle protocol w spec).1.registered a =
      (spec.isIn && spec.address == a || w.registered a) := by
  unfold bringUp
  split
  · rename_i hin
    have hfold (l : List ReplayInterface) (r : World × Endpoint) :
        (l.foldl (outfit d idle protocol) r).1.registered a = r.1.registered a := by
      induction l generalizing r with
      | nil => rfl
      | cons i l ih => rw [List.foldl_cons, ih, registered_outfit]
    have hlt : spec.address < 256 := byteAt_lt ..
    rw [hfold]
    dsimp only
    rw [World.registered_register hlt, hin, Bool.true_and, Bool.beq_comm]
  · rename_i hin
    rw [Bool.not_eq_true] at hin
    rw [hin, Bool.false_and, Bool.false_or]

theorem registered_bringAllUp (idle protocol : ℕ → ℕ) (specs : List ReplayEndpoint) :
    (bringAllUp d idle protocol w specs).1.registered a =
      (specs.any (fun spec => spec.isIn && spec.address == a) || w.registered a) := by
  induction specs generalizing w with
  | nil => rfl
  | cons spec specs ih =>
    rw [bringAllUp]
    dsimp only
    rw [ih, registered_bringUp, List.any_cons]
    cases spec.isIn && spec.address == a <;> simp

theorem registered_disable (wrote : ℕ → Bool) :
    (disable g wrote).world.registered a =
      (!g.endpoints.any (fun e => e.address == a) && g.world.registered a) := by
  have hwritten (l : List Endpoint) (u : World) :
      (l.foldl (fun w e => w.env (.written e.address (wrote e.address))) u).registered a =
        u.registered a := by
    induction l generalizing u with
    | nil => rfl
    | cons e l ih =>
      rw [List.foldl_cons, ih]
      exact World.registered_mix (x := .thread (.written _ _)) (by simp) (by simp)
  have hunregister (l : List Endpoint) (u : World) :
      (l.foldl (fun w e => w.env (.unregister e.address)) u).registered a =
        (!l.any (fun e => e.address == a) && u.registered a) := by
    induction l generalizing u with
    | nil => simp
    | cons e l ih =>
      rw [List.foldl_cons, ih, World.registered_unregister, List.any_cons, bne]
      rw [Bool.beq_comm (a := a)]
      cases e.address == a <;> simp
  unfold disable
  dsimp only
  rw [hwritten, hunregister]

/-- No writer is left after `disable`. -/
theorem busy_disable (wrote : ℕ → Bool)
    (h : g.world.busy a = true → ∃ e ∈ g.endpoints, e.address = a) :
    (disable g wrote).world.busy a = false := by
  have hunregister (l : List Endpoint) (u : World)
      (hu : (l.foldl (fun w e => w.env (.unregister e.address)) u).busy a = true) :
      u.busy a = true := by
    induction l generalizing u with
    | nil => exact hu
    | cons e l ih => exact World.busy_mix (x := .thread (.unregister _)) (by simp) (ih _ hu)
  have hwritten (l : List Endpoint) (u : World)
      (hu : (l.foldl (fun w e => w.env (.written e.address (wrote e.address))) u).busy a = true) :
      u.busy a = true ∧ ∀ e ∈ l, e.address ≠ a := by
    induction l generalizing u with
    | nil => exact ⟨hu, by simp⟩
    | cons e l ih =>
      obtain ⟨hbusy, hl⟩ := ih _ hu
      refine ⟨World.busy_mix (x := .thread (.written _ _)) (by simp) hbusy, ?_⟩
      rw [List.forall_mem_cons]
      refine ⟨fun heq => ?_, hl⟩
      subst heq
      cases hbusy.symm.trans (World.busy_written _)
  by_contra hbusy
  rw [Bool.not_eq_false] at hbusy
  obtain ⟨hbusy, hother⟩ := hwritten _ _ hbusy
  obtain ⟨e, he, ha⟩ := h (hunregister _ _ hbusy)
  exact hother e he ha

end Registered

/-- Setting up gives no writer a report. -/
theorem steady_busy (L : List Endpoint) :
    World.Steady fun w => ∀ a, w.busy a = true → ∃ e ∈ L, e.address = a := by
  intro w x hx h a ha
  refine h a (World.busy_mix (x := .thread x) ?_ ha)
  rintro hx'
  cases hx'
  cases hx

/-! ### The endpoints themselves -/

/-- What is repeated of the endpoint is still. -/
structure Endpoint.Good (e : Endpoint) : Prop where
  relative : ∀ f ∈ e.profile.relative, f.Wf
  last : e.profile.Still e.last
  timed : ∀ data, e.timed = some data → e.profile.Still data
  mouse : e.mouse = true → e.spec.isIn = true

theorem Endpoint.Good.bare (spec : ReplayEndpoint) : ({ spec } : Endpoint).Good :=
  ⟨by simp, fun f hf => by simp at hf, by simp, by simp⟩

theorem layoutFor_relative (protocol : ℕ) (sample : Option (List Byte)) {report : List Byte}
    {first : MouseProfile} {rest : List MouseProfile}
    (h : parseMouseDescriptor report = first :: rest) :
    ∀ f ∈ (layoutFor protocol sample first rest).relative, f.Wf := by
  unfold layoutFor
  split
  · exact bootProfile_relative
  · have hlayouts {m : MouseProfile} (hm : m ∈ first :: rest) : ∀ f ∈ m.relative, f.Wf :=
      parseMouseDescriptor_relative (h ▸ hm)
    cases hfind : (first :: rest).find? fun layout => sample.any layout.accepts with
    | none => exact hlayouts List.mem_cons_self
    | some layout => exact hlayouts (List.mem_of_find?_eq_some hfind)

theorem firstReport_still {layout : MouseProfile} (h : ∀ f ∈ layout.relative, f.Wf)
    (sample : Option (List Byte)) : layout.Still (firstReport layout sample) :=
  MouseProfile.encode_still h _

/-- Seeding only clears bits. -/
theorem seeded_clears (w : World) (a : ℕ) (data : List Byte) : Clears data (seeded w a data) := by
  unfold seeded
  split
  · exact .refl data
  · rename_i e hseed
    obtain ⟨old, -, hseed⟩ := Option.bind_eq_some_iff.mp hseed
    obtain ⟨m, -, rfl⟩ := Option.map_eq_some_iff.mp hseed
    exact (m.zeroRelative_clears data).trans (m.putButtons_clears _)

/-- Outfitting an endpoint that is not in use. -/
theorem outfit_good (idle protocol : ℕ → ℕ) {r : World × Endpoint} (i : ReplayInterface)
    (hin : r.2.spec.isIn = true) (htimed : r.2.timed = none) (h : r.2.Good) :
    (outfit d idle protocol r i).2.Good ∧ (outfit d idle protocol r i).2.spec = r.2.spec ∧
      (outfit d idle protocol r i).2.timed = none := by
  unfold outfit
  split
  · split
    · exact ⟨h, rfl, htimed⟩
    · rename_i first rest hlayouts
      have hrelative := layoutFor_relative (protocol i.number) (d.profile.samples r.2.address)
        hlayouts
      have hstill := firstReport_still hrelative (d.profile.samples r.2.address)
      have hseeded := hstill.clears (seeded_clears r.1 r.2.address _)
      refine ⟨⟨hrelative, hseeded, fun data hdata => ?_, fun _ => hin⟩, rfl, htimed⟩
      rw [htimed] at hdata
      cases hdata
  · exact ⟨h, rfl, htimed⟩

theorem bringUp_good (idle protocol : ℕ → ℕ) (w : World) (spec : ReplayEndpoint) :
    (bringUp d idle protocol w spec).2.Good ∧ (bringUp d idle protocol w spec).2.spec = spec := by
  unfold bringUp
  split
  · rename_i hin
    have hfold (l : List ReplayInterface) (r : World × Endpoint) (hspec : r.2.spec = spec)
        (htimed : r.2.timed = none) (h : r.2.Good) :
        (l.foldl (outfit d idle protocol) r).2.Good ∧
          (l.foldl (outfit d idle protocol) r).2.spec = spec := by
      induction l generalizing r with
      | nil => exact ⟨h, hspec⟩
      | cons i l ih =>
        obtain ⟨hgood, hsame, hnone⟩ := outfit_good (d := d) idle protocol i
          (hspec ▸ hin) htimed h
        exact ih _ (hsame.trans hspec) hnone hgood
    exact hfold _ _ rfl rfl (.bare spec)
  · exact ⟨.bare spec, rfl⟩

theorem bringAllUp_good (idle protocol : ℕ → ℕ) (w : World) (specs : List ReplayEndpoint) :
    (∀ e ∈ (bringAllUp d idle protocol w specs).2, e.Good) ∧
      (bringAllUp d idle protocol w specs).2.map (·.spec) = specs := by
  induction specs generalizing w with
  | nil => exact ⟨by simp [bringAllUp], rfl⟩
  | cons spec specs ih =>
    obtain ⟨hgood, hspec⟩ := bringUp_good (d := d) idle protocol w spec
    obtain ⟨hrest, hspecs⟩ := ih (bringUp d idle protocol w spec).1
    rw [bringAllUp]
    dsimp only
    rw [List.forall_mem_cons, List.map_cons, hspec, hspecs]
    exact ⟨⟨hgood, hrest⟩, rfl⟩

/-! ### The invariant -/

/-- The endpoints are those of the configuration, and the mixer knows the IN endpoints among
them. -/
structure Gadget.Inv (d : Device) (g : Gadget) : Prop where
  specs : g.configuration = 0 ∧ g.endpoints = [] ∨
    g.configuration = byteAt d.profile.config 5 ∧ g.endpoints.map (·.spec) = d.profile.endpoints
  registered : ∀ a, g.world.registered a = true ↔
    ∃ e ∈ g.endpoints, e.spec.isIn = true ∧ e.address = a
  busy : ∀ a, g.world.busy a = true → ∃ e ∈ g.endpoints, e.mouse = true ∧ e.address = a
  good : ∀ e ∈ g.endpoints, e.Good

theorem Gadget.Inv.start : Gadget.Inv d {} :=
  ⟨.inl ⟨rfl, rfl⟩, by simp [World.registered], by simp [World.busy], by simp⟩

/-- Endpoints that change keep their place. -/
theorem Gadget.Inv.map {f : Endpoint → Endpoint} (h : g.Inv d)
    (hf : ∀ e, (f e).spec = e.spec ∧ (f e).mouse = e.mouse) (hgood : ∀ e ∈ g.endpoints, (f e).Good)
    (hendpoints : g'.endpoints = g.endpoints.map f) (hconfig : g'.configuration = g.configuration)
    (hregistered : ∀ a, g'.world.registered a = g.world.registered a)
    (hbusy : ∀ a, g'.world.busy a = true →
      g.world.busy a = true ∨ ∃ e ∈ g.endpoints, e.mouse = true ∧ e.address = a) : g'.Inv d := by
  have haddress (e : Endpoint) : (f e).address = e.address := by
    rw [Endpoint.address, (hf e).1, Endpoint.address]
  refine ⟨?_, fun a => ?_, fun a ha => ?_, ?_⟩
  · rw [hconfig, hendpoints]
    refine h.specs.imp (fun hnone => ⟨hnone.1, by rw [hnone.2]; rfl⟩) fun hsome => ⟨hsome.1, ?_⟩
    rw [← hsome.2, List.map_map]
    exact List.map_congr_left fun e _ => (hf e).1
  · rw [hregistered, h.registered, hendpoints]
    simp only [List.mem_map, exists_exists_and_eq_and, (hf _).1, haddress]
  · rw [hendpoints]
    simp only [List.mem_map, exists_exists_and_eq_and, (hf _).2, haddress]
    rcases hbusy a ha with hbusy | hmouse
    · exact h.busy a hbusy
    · exact hmouse
  · rw [hendpoints]
    simpa only [List.mem_map, forall_exists_index, and_imp, forall_apply_eq_imp_iff₂] using hgood

/-- A step of the mixer that leaves the endpoints where they are. -/
theorem Gadget.Inv.mix (h : g.Inv d) {w : World}
    (hregistered : ∀ a, w.registered a = g.world.registered a)
    (hbusy : ∀ a, w.busy a = true →
      g.world.busy a = true ∨ ∃ e ∈ g.endpoints, e.mouse = true ∧ e.address = a) :
    ({ g with world := w } : Gadget).Inv d :=
  h.map (f := id) (fun _ => ⟨rfl, rfl⟩) h.good (List.map_id _).symm rfl hregistered hbusy

/-- With everything down nothing is registered and no writer is left. -/
theorem Gadget.Inv.disable (h : g.Inv d) (wrote : ℕ → Bool) (a : ℕ) :
    (Replay.disable g wrote).world.registered a = false ∧
      (Replay.disable g wrote).world.busy a = false := by
  refine ⟨?_, busy_disable wrote fun hbusy => ?_⟩
  · rw [registered_disable]
    by_contra hregistered
    simp only [Bool.and_eq_false_iff, not_or, Bool.not_eq_false, Bool.not_eq_true',
      List.any_eq_false, beq_iff_eq] at hregistered
    obtain ⟨e, he, -, haddress⟩ := (h.registered a).mp hregistered.2
    exact hregistered.1 e he haddress
  · obtain ⟨e, he, -, haddress⟩ := h.busy a hbusy
    exact ⟨e, he, haddress⟩

theorem Gadget.Inv.down (h : g.Inv d) (wrote : ℕ → Bool)
    (hworld : g'.world = (Replay.disable g wrote).world) (hendpoints : g'.endpoints = [])
    (hconfig : g'.configuration = 0) : g'.Inv d := by
  refine ⟨.inl ⟨hconfig, hendpoints⟩, fun a => ?_, fun a ha => ?_, by simp [hendpoints]⟩
  · rw [hworld, (h.disable wrote a).1, hendpoints]
    simp
  · rw [hworld, (h.disable wrote a).2] at ha
    cases ha

/-- **Bringing everything up.** -/
theorem Gadget.Inv.enable (h : g.Inv d) (hnone : g.endpoints = []) : (Replay.enable d g).Inv d := by
  obtain ⟨hgood, hspecs⟩ := bringAllUp_good (d := d) g.idle g.protocol
    (learn d g.protocol g.world) d.profile.endpoints
  have hendpoints : (Replay.enable d g).endpoints = (bringAllUp d g.idle g.protocol
      (learn d g.protocol g.world) d.profile.endpoints).2 := by
    rw [Replay.enable, hnone]
    rfl
  have hunregistered (a : ℕ) : g.world.registered a = false := by
    by_contra hregistered
    rw [Bool.not_eq_false, h.registered, hnone] at hregistered
    simp at hregistered
  refine ⟨.inr ⟨rfl, hendpoints ▸ hspecs⟩, fun a => ?_, fun a ha => ?_, hendpoints ▸ hgood⟩
  · have hworld : (Replay.enable d g).world.registered a =
        d.profile.endpoints.any fun spec => spec.isIn && spec.address == a := by
      rw [Replay.enable]
      dsimp only
      rw [registered_bringAllUp, registered_learn, hunregistered, Bool.or_false]
    rw [hworld, hendpoints]
    generalize (bringAllUp d g.idle g.protocol (learn d g.protocol g.world) d.profile.endpoints).2 =
      es at hspecs ⊢
    rw [← hspecs]
    simp only [List.any_map, List.any_eq_true, Function.comp, Bool.and_eq_true, beq_iff_eq]
    rfl
  · have hidle : ∀ a, g.world.busy a = true → ∃ e ∈ ([] : List Endpoint), e.address = a := by
      intro a ha
      obtain ⟨e, he, -⟩ := h.busy a ha
      rw [hnone] at he
      cases he
    obtain ⟨e, he, -⟩ := steady_enable (d := d) (steady_busy []) hidle a ha
    cases he

/-- Changing the endpoint at one address. -/
theorem Gadget.Inv.modify (h : g.Inv d) {a : ℕ} {f : Endpoint → Endpoint}
    (hf : ∀ e, (f e).spec = e.spec ∧ (f e).mouse = e.mouse)
    (hgood : ∀ e ∈ g.endpoints, e.address = a → (f e).Good) : (g.modify a f).Inv d := by
  refine h.map (f := fun e => if e.address = a then f e else e) (fun e => ?_) (fun e he => ?_) rfl
    rfl (fun _ => rfl) fun _ hbusy => .inl hbusy
  · split
    · exact hf e
    · exact ⟨rfl, rfl⟩
  · split
    · rename_i ha
      exact hgood e he ha
    · exact h.good e he

theorem Endpoint.Good.rated {e : Endpoint} (h : e.Good) (rate : ℕ) : ({ e with rate }).Good :=
  ⟨h.relative, h.last, h.timed, h.mouse⟩

theorem Endpoint.Good.wrote {e : Endpoint} (h : e.Good) (data : List Byte) (result : ℤ) :
    (e.wrote data result).Good := by
  unfold Endpoint.wrote
  split
  · exact ⟨h.relative, h.last, by simp, h.mouse⟩
  · exact ⟨h.relative, MouseProfile.zeroRelative_still h.relative data, by simp, h.mouse⟩

theorem Gadget.Inv.written (h : g.Inv d) (a : ℕ) (result : ℤ) :
    (Replay.written g a result).Inv d := by
  have hwrote (data : List Byte) (e : Endpoint) :
      (e.wrote data result).spec = e.spec ∧ (e.wrote data result).mouse = e.mouse := by
    unfold Endpoint.wrote
    split <;> exact ⟨rfl, rfl⟩
  unfold Replay.written
  split
  · exact h
  · split
    · exact h.modify (hwrote _) fun e he _ => (h.good e he).wrote _ result
    · rename_i taken _ _
      have hmix := h.mix (w := g.world.env (.written a (result == taken.io.data.length)))
        (fun b => World.registered_mix (x := .thread (.written a _)) (by simp) (by simp))
        fun b hb => .inl (World.busy_mix (x := .thread (.written a _)) (by simp) hb)
      exact hmix.modify (hwrote _) fun e he _ => (hmix.good e he).wrote _ result
    · exact h

theorem Gadget.Inv.effect (h : g.Inv d) {wrote : ℕ → Bool} (heffect : Effect d g wrote g') :
    g'.Inv d := by
  cases heffect with
  | same => exact h
  | configured idle protocol =>
    have hdown : ({ Replay.disable g wrote with idle, protocol } : Gadget).Inv d :=
      h.down wrote rfl rfl rfl
    exact hdown.enable rfl
  | unconfigured => exact h.down wrote rfl rfl rfl
  | wakeup =>
    exact h.map (f := id) (fun _ => ⟨rfl, rfl⟩) h.good (List.map_id _).symm rfl (fun _ => rfl)
      fun _ hbusy => .inl hbusy
  | idled idle hit rate =>
    refine h.map (f := fun e => if hit e then { e with idle := rate } else e) (fun e => ?_)
      (fun e he => ?_) rfl rfl (fun _ => rfl) fun _ hbusy => .inl hbusy
    · split <;> exact ⟨rfl, rfl⟩
    · have hgood := h.good e he
      split
      · exact ⟨hgood.relative, hgood.last, hgood.timed, hgood.mouse⟩
      · exact hgood

/-- **Every step keeps the invariant.** -/
theorem Gadget.Inv.step (h : g.Inv d) (x : Step) : (Replay.step d g x).Inv d := by
  cases x with
  | control s wrote => exact h.effect (control_effect g wrote s)
  | reset wrote => exact h.down wrote rfl rfl rfl
  | wait a =>
    refine h.modify (fun e => ?_) fun e he _ => ?_
    · split <;> exact ⟨rfl, rfl⟩
    · split
      · exact (h.good e he).rated e.idle
      · exact h.good e he
  | take a =>
    rw [Replay.step]
    split
    · rename_i htake
      have htaken : ({ g with world := g.world.env (.take a) } : Gadget).Inv d := by
        refine h.mix (fun b => World.registered_mix (x := .thread (.take a)) (by simp) (by simp))
          fun b hb => ?_
        by_cases hba : b = a
        · obtain ⟨e, he, hwaits⟩ := List.any_eq_true.mp htake.1
          simp only [waiting, Bool.and_eq_true, beq_iff_eq] at hwaits
          exact .inr ⟨e, he, hwaits.2.1.1.1, hba ▸ hwaits.1⟩
        · refine .inl (World.busy_mix (x := .thread (.take a)) (fun heq => hba ?_) hb)
          cases heq
          rfl
      exact htaken.modify (fun _ => ⟨rfl, rfl⟩) fun e he _ => (htaken.good e he).rated 0
    · exact h
  | again a =>
    rw [Replay.step]
    split
    · exact h
    · refine h.modify (fun e => ?_) fun e he _ => ?_
      · split <;> exact ⟨rfl, rfl⟩
      · have hgood := h.good e he
        split
        · refine ⟨hgood.relative, hgood.last, fun data hdata => ?_, hgood.mouse⟩
          rw [← Option.some.inj hdata]
          exact hgood.last
        · exact hgood
  | written a result => exact h.written a result
  | server x =>
    have hserver (hx : ∀ y, x ≠ .thread y) :
        ({ g with world := g.world.mix x } : Gadget).Inv d :=
      h.mix (fun b => World.registered_mix (fun _ _ _ _ => hx _) fun _ => hx _)
        fun b hb => .inl (World.busy_mix (hx _) hb)
    cases x with
    | thread => exact h
    | enqueue | clear | takeEvents | takeOverflow | record => exact hserver (by simp)
  | elapse ns =>
    exact h.mix (fun b => World.registered_mix (x := .thread (.elapse ns)) (by simp) (by simp))
      fun b hb => .inl (World.busy_mix (x := .thread (.elapse ns)) (by simp) hb)

theorem Gadget.Inv.run (h : g.Inv d) (steps : List Step) : (Replay.run d g steps).Inv d := by
  induction steps generalizing g with
  | nil => exact h
  | cons x steps ih => exact ih (h.step x)

theorem Gadget.Reachable.inv (h : g.Reachable d) : g.Inv d := by
  obtain ⟨steps, rfl⟩ := h
  exact Gadget.Inv.start.run steps

theorem Gadget.Reachable.lasting (h : g.Reachable d) (hP : World.Lasting P) (hstart : P {}) :
    P g.world := by
  obtain ⟨steps, rfl⟩ := h
  exact lasting_run hP steps hstart

/-- What the loader makes sure of. -/
theorem loaded_profile {json : Json} {lines : List (List Byte)} {p : ReplayProfile}
    (h : ReplayProfile.load json lines = some p) :
    byteAt p.config 5 ≠ 0 ∧ (p.endpoints.map (·.address)).Nodup := by
  obtain ⟨q, -, hcomplete⟩ := Option.bind_eq_some_iff.mp h
  cases hresult : ReplayProfile.complete q with
  | error e =>
    rw [hresult] at hcomplete
    cases hcomplete
  | ok p' =>
    rw [hresult] at hcomplete
    obtain ⟨device, config, bs, haccepts, hp⟩ := ReplayProfile.complete_ok.mp hresult
    have hsame : p = ReplayProfile.profileOf q device config bs :=
      (Option.some.inj hcomplete).symm.trans hp
    rw [hsame]
    refine ⟨haccepts.configComplete.2.2.2.1, ?_⟩
    have haddresses := ReplayProfile.endpoint_addresses haccepts.hidOnly.headed
    rw [(ReplayProfile.foldl_add rfl).2] at haddresses
    have hnodup := haccepts.hidOnly.addresses
    rw [← haddresses] at hnodup
    exact hnodup

/-- **The replayed device's configuration and the mixer agree**, whatever the host, the writers and
the server do and in whatever order: while it is configured the device has the endpoints of the
capture, and the mixer exactly the IN endpoints among them; while it is not, there are none. -/
theorem endpoints_configured {json : Json} {lines : List (List Byte)}
    (hload : ReplayProfile.load json lines = some d.profile) (h : g.Reachable d) :
    (g.configuration = 0 ∧ g.endpoints = [] ∨
        g.configuration = byteAt d.profile.config 5 ∧ g.configuration ≠ 0 ∧
          g.endpoints.map (·.spec) = d.profile.endpoints) ∧
      (g.endpoints.map (·.address)).Nodup ∧
      (∀ a, (g.world.endpoints a).isSome = true ↔ g.configuration ≠ 0 ∧
        ∃ spec ∈ d.profile.endpoints, spec.isIn = true ∧ spec.address = a) ∧
      (∀ a, (g.world.ports a).writer.isSome = true → (g.world.endpoints a).isSome = true) ∧
      g.world.Mixed := by
  have hinv := h.inv
  obtain ⟨hconfig, hnodup⟩ := loaded_profile hload
  refine ⟨?_, ?_, fun a => ?_, fun a ha => ?_, h.lasting World.lasting_mixed ⟨[], rfl⟩⟩
  · refine hinv.specs.imp_right fun hup => ⟨hup.1, ?_, hup.2⟩
    rw [hup.1]
    exact hconfig
  · rcases hinv.specs with ⟨-, hnone⟩ | ⟨-, hspecs⟩
    · rw [hnone]
      exact List.nodup_nil
    · rw [← hspecs, List.map_map] at hnodup
      exact hnodup
  · rw [← World.registered, hinv.registered]
    rcases hinv.specs with ⟨hzero, hnone⟩ | ⟨hup, hspecs⟩
    · simp [hzero, hnone]
    · rw [← hspecs]
      simp only [List.mem_map, exists_exists_and_eq_and]
      exact ⟨fun hmem => ⟨by rw [hup]; exact hconfig, hmem⟩, fun hmem => hmem.2⟩
  · obtain ⟨e, he, hmouse, haddress⟩ := hinv.busy a ha
    exact (hinv.registered a).mpr ⟨e, he, (hinv.good e he).mouse hmouse, haddress⟩

/-- SET_CONFIGURATION of the sample. -/
def sampleConfigured (d : Device) : Gadget :=
  run d {} [.control ⟨0, 9, 1, 0, 0⟩ fun _ => true]

theorem sample_configured :
    ((ReplayProfile.load ReplayProfile.sampleJson
      ((captureFile ReplayProfile.sampleCalls).map ReplayProfile.sampleJson.write)).any fun p =>
        (sampleConfigured ⟨p, id⟩).configuration == 1) = true := by decide +kernel

theorem endpoints_configured_sample : ∃ d : Device,
    (sampleConfigured d).endpoints.map (·.spec) = d.profile.endpoints ∧
      (sampleConfigured d).world.Mixed := by
  obtain ⟨p, hp, hone⟩ := (Option.any_eq_true _ _).mp sample_configured
  obtain ⟨hspecs, -, -, -, hmixed⟩ := endpoints_configured (d := ⟨p, id⟩)
    (g := sampleConfigured ⟨p, id⟩) hp ⟨_, rfl⟩
  refine ⟨⟨p, id⟩, ?_, hmixed⟩
  rcases hspecs with ⟨hzero, -⟩ | ⟨-, -, hspecs⟩
  · rw [hzero] at hone
    exact absurd hone (by decide)
  · exact hspecs

end Replay

end UsbProxy
