import UsbProxy.Mixer.Registered
import UsbProxy.Proxy.Gadget

/-!
# Starting and stopping endpoints

What `process_eps` and `terminate_eps` do to the endpoints that are up: the threads run only for
these, the mixer has exactly the managed ones among them, and the others have no transfer left.
-/

namespace UsbProxy

namespace World

variable {w : World} {a : ℕ}

/-- An address the mixer has no endpoint at has no reports. -/
def Idle (w : World) : Prop := ∀ a, w.registered a = false → w.ports a = {}

theorem ports_layout {x : EnvStep} (hx : x.isLayout = true) : (w.env x).ports a = w.ports a := by
  have hport : PortMove w a (.thread x) ((w.env x).ports a) := w.mix_ports (.thread x) a
  generalize (w.env x).ports a = p at hport
  cases hport with
  | same => rfl
  | read | pushed | taken | written => cases hx

theorem registered_layout {x : EnvStep} (hregister : ∀ b n e p, x ≠ .register b n e p)
    (hunregister : ∀ b, x ≠ .unregister b) : (w.env x).registered a = w.registered a := by
  refine registered_mix (x := .thread x) (fun b n e p h => ?_) fun b h => ?_
  · exact hregister b n e p (MixerStep.thread.inj h)
  · exact hunregister b (MixerStep.thread.inj h)

/-- A step of an endpoint's threads changes the port of the endpoint and no other. -/
theorem ports_other {x : EnvStep} (hphysical : ∀ n l, x ≠ .physical a n l) (hpush : x ≠ .push a)
    (htake : x ≠ .take a) (hwritten : ∀ b, x ≠ .written a b) : (w.env x).ports a = w.ports a := by
  have hport : PortMove w a (.thread x) ((w.env x).ports a) := w.mix_ports (.thread x) a
  generalize (w.env x).ports a = p at hport
  cases hport with
  | same => rfl
  | read epNum data => exact absurd rfl (hphysical epNum data)
  | pushed => exact absurd rfl hpush
  | taken => exact absurd rfl htake
  | written _ success => exact absurd rfl (hwritten success)

end World

namespace Proxy

variable {d : Device} {o : Outside} {g g' : Gadget} {w : World} {alt : Altsetting} {p : Place}
  {fuel : ℕ}

/-! ### The mixer under one altsetting -/

theorem learnInterface_same (a : ℕ) :
    (learnInterface o alt w).registered a = w.registered a ∧
      (learnInterface o alt w).ports a = w.ports a := by
  unfold learnInterface
  by_cases hhid : alt.isHid = true
  · rw [if_pos hhid]
    dsimp only
    constructor
    · rw [World.registered_layout (by simp) (by simp), World.registered_layout (by simp) (by simp)]
    · rw [World.ports_layout rfl, World.ports_layout rfl]
  · rw [if_neg hhid]
    exact ⟨rfl, rfl⟩

theorem registerAll_spec (a : ℕ) : ∀ (l : List EndpointDescriptor) (w : World),
    ((l.foldl (registerEndpoint d alt) w).registered a = true ↔
        w.registered a = true ∨ ∃ e ∈ l, alt.manages e = true ∧ e.address.toNat = a) ∧
      (l.foldl (registerEndpoint d alt) w).ports a = w.ports a
  | [], w => by simp
  | e :: l, w => by
    obtain ⟨hregistered, hports⟩ := registerAll_spec a l (registerEndpoint d alt w e)
    rw [List.foldl_cons, hregistered, hports]
    unfold registerEndpoint
    by_cases hmanages : alt.manages e = true
    · rw [if_pos hmanages, World.registered_register e.address.isLt, World.ports_layout rfl]
      simp only [Bool.or_eq_true, beq_iff_eq, List.exists_mem_cons_iff, hmanages, true_and]
      refine ⟨⟨?_, ?_⟩, trivial⟩
      · rintro ((rfl | h) | h)
        · exact .inr (.inl rfl)
        · exact .inl h
        · exact .inr (.inr h)
      · rintro (h | rfl | h)
        · exact .inl (.inr h)
        · exact .inl (.inl rfl)
        · exact .inr h
    · rw [if_neg hmanages]
      simp [hmanages]

theorem releaseEndpoint_spec (a : ℕ) (e : EndpointDescriptor) :
    (releaseEndpoint o w e).registered a = (a != e.address.toNat && w.registered a) ∧
      (releaseEndpoint o w e).ports a = if a = e.address.toNat then {} else w.ports a := by
  unfold releaseEndpoint
  dsimp only
  constructor
  · show ((w.env (.unregister e.address.toNat)).env (.written e.address.toNat _)).registered a = _
    rw [World.registered_layout (by simp) (by simp), World.registered_unregister]
  · rw [World.setPort_ports]
    by_cases ha : a = e.address.toNat
    · rw [if_pos ha, if_pos ha]
    · rw [if_neg ha, if_neg ha, World.ports_other (by simp) (by simp) (by simp),
        World.ports_layout rfl]
      intro b h
      cases h
      exact ha rfl

theorem releaseAll_spec (a : ℕ) : ∀ (l : List EndpointDescriptor) (w : World),
    ((l.foldl (releaseEndpoint o) w).registered a = true ↔
        w.registered a = true ∧ ∀ e ∈ l, e.address.toNat ≠ a) ∧
      (l.foldl (releaseEndpoint o) w).ports a =
        if ∃ e ∈ l, e.address.toNat = a then {} else w.ports a
  | [], w => by simp
  | e :: l, w => by
    obtain ⟨hregistered, hports⟩ := releaseAll_spec a l (releaseEndpoint o w e)
    obtain ⟨hone, hport⟩ := releaseEndpoint_spec (o := o) (w := w) a e
    rw [List.foldl_cons, hregistered, hports, hone, hport]
    simp only [Bool.and_eq_true, bne_iff_ne, ne_eq, List.forall_mem_cons, List.exists_mem_cons_iff]
    constructor
    · exact ⟨fun h => ⟨h.1.2, Ne.symm h.1.1, h.2⟩, fun h => ⟨⟨Ne.symm h.2.1, h.1⟩, h.2.2⟩⟩
    · by_cases hl : ∃ e ∈ l, e.address.toNat = a
      · rw [if_pos hl, if_pos (.inr hl)]
      · rw [if_neg hl]
        by_cases ha : a = e.address.toNat
        · rw [if_pos ha, if_pos (.inl ha.symm)]
        · rw [if_neg ha, if_neg (by rintro (h | h) <;> [exact ha h.symm; exact hl h])]

/-! ### What is up -/

/-- The mixer manages an endpoint of the altsetting at the address. -/
def Device.Manages (d : Device) (p : Place) (a : ℕ) : Prop :=
  ∃ alt, d.altsetting p = some alt ∧
    ∃ e ∈ alt.endpoints, alt.manages e = true ∧ e.address.toNat = a

/-- The thread is one of an endpoint that there is. -/
def Device.HasThread (d : Device) (t : Thread) : Prop :=
  ∃ alt, d.altsetting t.place = some alt ∧ t.endpoint < alt.endpoints.length

/-- Exactly the altsettings in `U` are up. -/
structure Covers (d : Device) (U : Place → Prop) (g : Gadget) : Prop where
  up : ∀ p, g.up p = true ↔ U p
  live : ∀ t, g.live t = true → U t.place ∧ d.HasThread t
  registered : ∀ a, g.world.registered a = true ↔ ∃ p, U p ∧ d.Manages p a
  idle : g.world.Idle
  empty : ∀ p, ¬U p → g.pipes p = fun _ => {}

/-- What starting and stopping endpoints leaves alone. -/
structure Kept (g g' : Gadget) : Prop where
  currentConfig : g'.currentConfig = g.currentConfig
  currentAltsetting : g'.currentAltsetting = g.currentAltsetting
  configured : g'.configured = g.configured
  calls : g'.calls = g.calls
  asked : g'.asked = g.asked
  heard : g'.heard = g.heard

theorem processEps_some (h : processEps d o p g = some g') :
    ∃ alt, d.altsetting p = some alt ∧ Kept g g' ∧ g'.up = Function.update g.up p true ∧
      (∀ t, g'.live t = if t.place = p then decide (t.endpoint < alt.endpoints.length)
        else g.live t) ∧ g'.pipes = Function.update g.pipes p fun _ => {} := by
  unfold processEps at h
  split at h
  · cases h
  · rename_i alt halt
    split at h
    · exact Option.some.inj h ▸ ⟨alt, halt, ⟨rfl, rfl, rfl, rfl, rfl, rfl⟩, rfl, fun _ => rfl, rfl⟩
    · cases h

theorem terminateEps_some (h : terminateEps d o p g = some g') :
    ∃ alt, d.altsetting p = some alt ∧ (alt.endpoints ≠ [] → g.up p = true) ∧ Kept g g' ∧
      g'.up = Function.update g.up p false ∧
      (∀ t, g'.live t = (decide (t.place ≠ p) && g.live t && !o.seen t)) ∧
      g'.pipes = Function.update g.pipes p fun _ => {} := by
  unfold terminateEps at h
  split at h
  · cases h
  · rename_i alt halt
    split at h
    · cases h
    · rename_i hup
      refine Option.some.inj h ▸ ⟨alt, halt, fun hne => ?_, ⟨rfl, rfl, rfl, rfl, rfl, rfl⟩, rfl,
        fun _ => rfl, rfl⟩
      by_contra hdown
      exact hup ⟨hne, by simpa using hdown⟩

theorem Covers.congr {U V : Place → Prop} (h : Covers d U g) (huv : ∀ p, U p ↔ V p) :
    Covers d V g := by
  have hfun : U = V := funext fun p => propext (huv p)
  exact hfun ▸ h

/-- **An altsetting is started.** -/
theorem processEps_covers {U : Place → Prop} (h : Covers d U g) (halt : d.altsetting p = some alt)
    (hsound : ∀ e ∈ alt.endpoints, e.Sound) :
    ∃ g', processEps d o p g = some g' ∧ Covers d (fun q => U q ∨ q = p) g' ∧ Kept g g' := by
  unfold processEps
  rw [halt]
  dsimp only
  rw [if_pos hsound]
  refine ⟨_, rfl, ⟨fun q => ?_, fun t ht => ?_, fun a => ?_, fun a ha => ?_, fun q hq => ?_⟩,
    ⟨rfl, rfl, rfl, rfl, rfl, rfl⟩⟩
  · dsimp only
    by_cases hq : q = p
    · simp [hq]
    · rw [Function.update_of_ne hq, h.up q]
      simp [hq]
  · dsimp only at ht
    by_cases hplace : t.place = p
    · rw [if_pos hplace, decide_eq_true_eq] at ht
      exact ⟨.inr hplace, alt, by rw [hplace, halt], ht⟩
    · rw [if_neg hplace] at ht
      exact ⟨.inl (h.live t ht).1, (h.live t ht).2⟩
  · dsimp only
    rw [(registerAll_spec a _ _).1, (learnInterface_same a).1, h.registered]
    constructor
    · rintro (⟨q, hq, hmanages⟩ | he)
      · exact ⟨q, .inl hq, hmanages⟩
      · exact ⟨p, .inr rfl, alt, halt, he⟩
    · rintro ⟨q, hq | rfl, hmanages⟩
      · exact .inl ⟨q, hq, hmanages⟩
      · obtain ⟨alt', halt', he⟩ := hmanages
        rw [halt] at halt'
        cases halt'
        exact .inr he
  · dsimp only at ha ⊢
    rw [(registerAll_spec a _ _).2, (learnInterface_same a).2]
    refine h.idle a ?_
    rw [← Bool.not_eq_true, (registerAll_spec a _ _).1, (learnInterface_same a).1] at ha
    simpa using fun hyes => ha (.inl hyes)
  · rw [not_or] at hq
    dsimp only
    rw [Function.update_of_ne hq.2]
    exact h.empty q hq.1

/-- **An altsetting is stopped.** -/
theorem terminateEps_covers {U : Place → Prop} (h : Covers d U g) (hp : U p)
    (halt : d.altsetting p = some alt)
    (hapart : ∀ q a, U q → q ≠ p → d.Manages q a → ∀ e ∈ alt.endpoints, e.address.toNat ≠ a) :
    ∃ g', terminateEps d o p g = some g' ∧ Covers d (fun q => U q ∧ q ≠ p) g' ∧ Kept g g' := by
  unfold terminateEps
  rw [halt]
  dsimp only
  have hup : ¬(alt.endpoints ≠ [] ∧ g.up p = false) := by
    rw [(h.up p).mpr hp]
    simp
  rw [if_neg hup]
  refine ⟨_, rfl, ⟨fun q => ?_, fun t ht => ?_, fun a => ?_, fun a ha => ?_, fun q hq => ?_⟩,
    ⟨rfl, rfl, rfl, rfl, rfl, rfl⟩⟩
  · dsimp only
    by_cases hq : q = p
    · simp [hq]
    · rw [Function.update_of_ne hq, h.up q]
      simp [hq]
  · simp only [Bool.and_eq_true, decide_eq_true_eq] at ht
    exact ⟨⟨(h.live t ht.1.2).1, ht.1.1⟩, (h.live t ht.1.2).2⟩
  · dsimp only
    rw [(releaseAll_spec a _ _).1, h.registered]
    constructor
    · rintro ⟨⟨q, hq, hmanages⟩, hnone⟩
      refine ⟨q, ⟨hq, ?_⟩, hmanages⟩
      rintro rfl
      obtain ⟨alt', halt', e, he, -, haddress⟩ := hmanages
      rw [halt] at halt'
      cases halt'
      exact hnone e he haddress
    · rintro ⟨q, ⟨hq, hne⟩, hmanages⟩
      exact ⟨⟨q, hq, hmanages⟩, hapart q a hq hne hmanages⟩
  · dsimp only at ha ⊢
    rw [(releaseAll_spec a _ _).2]
    by_cases hhere : ∃ e ∈ alt.endpoints, e.address.toNat = a
    · rw [if_pos hhere]
    · rw [if_neg hhere]
      refine h.idle a ?_
      rw [← Bool.not_eq_true, (releaseAll_spec a _ _).1] at ha
      rw [← Bool.not_eq_true]
      exact fun hyes => ha ⟨hyes, fun e he haddress => hhere ⟨e, he, haddress⟩⟩
  · dsimp only
    by_cases hqp : q = p
    · rw [hqp, Function.update_self]
    · rw [Function.update_of_ne hqp]
      exact h.empty q fun hup => hq ⟨hup, hqp⟩

/-! ### The other requests -/

/-- Nothing is started, stopped or chosen. -/
structure Untouched (g g' : Gadget) : Prop where
  up : g'.up = g.up
  live : g'.live = g.live
  pipes : g'.pipes = g.pipes
  currentConfig : g'.currentConfig = g.currentConfig
  currentAltsetting : g'.currentAltsetting = g.currentAltsetting
  configured : g'.configured = g.configured

theorem Untouched.trans {g1 g2 : Gadget} (h : Untouched g g1) (h' : Untouched g1 g2) :
    Untouched g g2 :=
  ⟨h'.up.trans h.up, h'.live.trans h.live, h'.pipes.trans h.pipes,
    h'.currentConfig.trans h.currentConfig, h'.currentAltsetting.trans h.currentAltsetting,
    h'.configured.trans h.configured⟩

theorem untouched_stall (g : Gadget) (s : CaptureSetup) : Untouched g (g.stall o s) := by
  unfold Gadget.stall
  split <;> exact ⟨rfl, rfl, rfl, rfl, rfl, rfl⟩

theorem untouched_ack (g : Gadget) (s : CaptureSetup) : Untouched g (g.ack o s) := by
  unfold Gadget.ack
  split <;> exact ⟨rfl, rfl, rfl, rfl, rfl, rfl⟩

theorem untouched_followProtocol (g : Gadget) (s : CaptureSetup) :
    Untouched g (followProtocol d s g) := by
  unfold followProtocol
  split <;> exact ⟨rfl, rfl, rfl, rfl, rfl, rfl⟩

theorem untouched_inRequest {s : CaptureSetup} (h : inRequest fuel d o s g = some g') :
    Untouched g g' := by
  have hasked : Untouched g (g.ask s []) := ⟨rfl, rfl, rfl, rfl, rfl, rfl⟩
  unfold inRequest at h
  dsimp only at h
  split at h
  · exact Option.some.inj h ▸ hasked.trans (untouched_stall _ s)
  · split at h
    · cases h
    · exact Option.some.inj h ▸ hasked
    · exact Option.some.inj h ▸ hasked.trans (untouched_stall _ s)
    · exact Option.some.inj h ▸ ⟨rfl, rfl, rfl, rfl, rfl, rfl⟩

theorem untouched_outRequest {s : CaptureSetup} (h : outRequest fuel d o s g = some g') :
    Untouched g g' := by
  unfold outRequest at h
  split at h
  · cases h
  · exact Option.some.inj h ▸ ⟨rfl, rfl, rfl, rfl, rfl, rfl⟩
  · exact Option.some.inj h ▸ untouched_stall g s
  · rename_i s' io _
    have hasked : Untouched g (g.ask s' []) := ⟨rfl, rfl, rfl, rfl, rfl, rfl⟩
    dsimp only at h
    split at h
    · split at h
      · exact Option.some.inj h ▸ hasked.trans (untouched_stall _ s)
      · exact Option.some.inj h ▸
          (hasked.trans (untouched_followProtocol _ s')).trans (untouched_ack _ s)
    · split at h
      · exact Option.some.inj h ▸ ⟨rfl, rfl, rfl, rfl, rfl, rfl⟩
      · split at h
        · cases h
        · exact Option.some.inj h ▸ (untouched_ack g s).trans ⟨rfl, rfl, rfl, rfl, rfl, rfl⟩

/-- A loop over interfaces that keeps an invariant of those still to come. -/
theorem overPlaces_rule {f : Place → Gadget → Option Gadget} {I : List Place → Gadget → Prop}
    (hstep : ∀ p rest g, I (p :: rest) g → ∃ g', f p g = some g' ∧ I rest g') :
    ∀ {l : List Place} {g : Gadget}, I l g → ∃ g', overPlaces f l g = some g' ∧ I [] g'
  | [], g, h => ⟨g, rfl, h⟩
  | p :: rest, g, h => by
    obtain ⟨g1, h1, hrest⟩ := hstep p rest g h
    obtain ⟨g2, h2, hdone⟩ := overPlaces_rule hstep hrest
    refine ⟨g2, ?_, hdone⟩
    unfold overPlaces
    rw [h1, Option.bind_some, h2]

end Proxy

end UsbProxy
