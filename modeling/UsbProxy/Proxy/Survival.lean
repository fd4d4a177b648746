import UsbProxy.Proxy.Runs

/-!
# What the proxy survives

With rules that end and make nothing longer, an orderly host never brings the proxy down, and the
endpoints keep their threads unless one leaves by itself or takes the stop flag of another interface
for its own.
-/

namespace UsbProxy.Proxy

open Bits

variable {d : Device} {o : Outside} {g g' : Gadget} {fuel : ℕ}

/-! ### Every step can be taken -/

/-- The rules end, and those for control transfers make none longer. -/
structure Device.Tame (d : Device) : Prop where
  modify : ∀ rule ∈ d.injectionConfig.control.modify,
    UsbProxy.Tame rule.contentPattern rule.replacement ∧ rule.Shrinks
  transfers : ∀ e, ∀ rule ∈ d.rules e, UsbProxy.Tame rule.contentPattern rule.replacement

theorem inject_ends (ht : d.Tame) (t : Transfer) : ∃ fuel t', inject fuel d t = some t' := by
  unfold inject
  by_cases henabled : d.injectionEnabled = true
  · obtain ⟨fuel, t', h⟩ := controlInjection_ends t fun rule hrule => (ht.modify rule hrule).1
    refine ⟨fuel, t', ?_⟩
    rw [if_pos henabled, h]
  · refine ⟨0, t, ?_⟩
    rw [if_neg henabled]

theorem inject_within (ht : d.Tame) {s : CaptureSetup} {io : Io} {t : Transfer}
    (hio : io.data.length = s.length.toNat) (h : inject fuel d ⟨s, io, .none⟩ = some t) :
    t.event.length.toNat ≤ s.length.toNat := by
  unfold inject at h
  by_cases henabled : d.injectionEnabled = true
  · rw [if_pos henabled] at h
    exact controlInjection_within (fun rule hrule => (ht.modify rule hrule).2) hio h
  · rw [if_neg henabled] at h
    rw [← Option.some.inj h]

theorem inRequest_ends (ht : d.Tame) (s : CaptureSetup) (g : Gadget) :
    ∃ fuel g', inRequest fuel d o s g = some g' := by
  unfold inRequest
  dsimp only
  cases hdevice : o.device with
  | none => exact ⟨0, _, rfl⟩
  | some reply =>
    obtain ⟨fuel, ⟨s', io, flags⟩, h⟩ := inject_ends ht
      ⟨s, { data := reply.take s.length.toNat }, .none⟩
    refine ⟨fuel, ?_⟩
    dsimp only
    rw [h]
    cases flags with
    | none | ignore | stall => exact ⟨_, rfl⟩

theorem outRequest_ends (ht : d.Tame) (s : CaptureSetup) (g : Gadget) :
    ∃ fuel g', outRequest fuel d o s g = some g' := by
  obtain ⟨fuel, ⟨s', io, flags⟩, h⟩ := inject_ends ht
    ⟨s, { data := (List.range s.length.toNat).map o.stack }, .none⟩
  refine ⟨fuel, ?_⟩
  unfold outRequest
  rw [h]
  cases flags with
  | ignore | stall => exact ⟨_, rfl⟩
  | none =>
    dsimp only
    by_cases hzero : s'.length = 0
    · rw [if_pos hzero]
      cases o.device with
      | none | some => exact ⟨_, rfl⟩
    · rw [if_neg hzero]
      cases o.acked with
      | none => exact ⟨_, rfl⟩
      | some payload =>
        have hwithin := inject_within ht (by simp) h
        dsimp only at hwithin ⊢
        rw [if_neg (by omega)]
        exact ⟨_, rfl⟩

theorem control_ends (hd : d.Wf) (ht : d.Tame) (h : g.Inv d) {s : CaptureSetup}
    (horderly : Orderly d g (.control o s)) : ∃ fuel g', control fuel d o s g = some g' := by
  have hfetched := h.fetched 2 (some s)
  unfold control
  dsimp only
  by_cases hlong : 4096 < s.length.toNat
  · simp only [if_pos hlong]
    exact ⟨0, _, rfl⟩
  simp only [if_neg hlong]
  by_cases hin : s.type.getLsbD 7 = true
  · simp only [if_pos hin]
    exact inRequest_ends ht s _
  simp only [if_neg hin]
  have hout : s.type.getLsbD 7 = false := by simpa using hin
  by_cases h9 : s.type.toNat / 32 % 4 = 0 ∧ s.request = 9#8
  · simp only [if_pos h9]
    obtain ⟨g1, h1, -⟩ := hfetched.setConfiguration (o := o) hd
      (horderly.1 ⟨by omega, hout, h9⟩)
    exact ⟨0, g1, h1⟩
  simp only [if_neg h9]
  by_cases h11 : s.type.toNat / 32 % 4 = 0 ∧ s.request = 11#8
  · simp only [if_pos h11]
    obtain ⟨g1, h1, -⟩ := hfetched.setInterface (o := o) (s := s) hd
      (horderly.2 ⟨by omega, hout, h11⟩)
    exact ⟨0, g1, h1⟩
  simp only [if_neg h11]
  exact outRequest_ends ht s _

theorem readTransfer_ends (ht : d.Tame) (t : Thread) (data : List Byte) (g : Gadget) :
    ∃ fuel g', readTransfer fuel d t data g = some g' := by
  unfold readTransfer
  cases hserved : served d g t with
  | none => exact ⟨0, g, rfl⟩
  | some r =>
    obtain ⟨alt, e⟩ := r
    dsimp only
    by_cases hready : g.Receives t alt e ∧ e.Accepts data
    · obtain ⟨fuel, io, hio⟩ := endpointInjection_ends (a := e.address.toNat)
        { ep := d.epNum e.address.toNat, data } (ht.transfers e)
      refine ⟨fuel, ?_⟩
      rw [if_pos hready, hio]
      exact ⟨_, rfl⟩
    · refine ⟨0, g, ?_⟩
      rw [if_neg hready]

/-- **An orderly host does not bring the proxy down.**  Whatever was done, each next step of the
host, the threads and the server is taken: no index is out of range, no queue is missing, no buffer
is overrun, no assertion fails and every rule ends. -/
theorem orderly_survives (hd : d.Wf) (ht : d.Tame) (h : Reaches d (Orderly d) g) (x : Step)
    (hx : Orderly d g x) : ∃ fuel g', step fuel d g x = some g' := by
  have hinv := h.inv hd fun _ _ hx => hx
  cases x with
  | control o s => exact control_ends hd ht hinv hx
  | event o type =>
    unfold step
    dsimp only
    by_cases htype : type = 5 ∨ type = 6
    · obtain ⟨g1, h1, -⟩ := (hinv.fetched type none).reset (o := o) hd
      refine ⟨0, g1, ?_⟩
      rw [if_pos htype, h1]
    · simp only [if_neg htype]
      exact ⟨0, _, rfl⟩
  | read t data =>
    unfold step
    dsimp only
    by_cases hwrites : t.writes = true
    · refine ⟨0, g, ?_⟩
      rw [if_pos hwrites]
    · simp only [if_neg hwrites]
      exact readTransfer_ends ht t data g
  | push | take | written | leave | elapse => exact ⟨0, _, rfl⟩
  | server x =>
    cases x with
    | thread | enqueue | clear | takeEvents | takeOverflow | record => exact ⟨0, _, rfl⟩

/-- The mouse behind a rule that turns the left button into the right one. -/
def sampleSwapped : Device :=
  { sampleMouse with
    injectionEnabled := true
    injectionConfig := { int := [{
      epAddress := 81, enable := true, contentPattern := [ascii "\\x01"]
      replacement := ascii "\\x02" }] } }

theorem orderly_survives_sample : ∃ fuel g', step fuel sampleSwapped (start sampleSwapped)
    (.control {} sampleSet) = some g' := by
  have hwf : sampleSwapped.Wf :=
    ⟨sampleMouse_wf.interfaces, sampleMouse_wf.sound, sampleMouse_wf.apart⟩
  have hint : ∀ rule ∈ sampleSwapped.injectionConfig.int,
      UsbProxy.Tame rule.contentPattern rule.replacement := by decide
  have htame : sampleSwapped.Tame := by
    refine ⟨by simp [sampleSwapped], fun e rule hrule => ?_⟩
    unfold Device.rules at hrule
    rw [if_pos (show sampleSwapped.injectionEnabled = true from rfl)] at hrule
    split at hrule
    · cases hrule
    · cases hrule
    · exact hint rule hrule
    · cases hrule
  exact orderly_survives hwf htame .start _ (orderly_start _ _)

/-! ### The threads keep running -/

/-- No thread leaves by itself, and none sees the flag that stops another interface. -/
def Undisturbed : Step → Prop
  | .control o s => Standard s 11 → ∀ t, o.seen t = false
  | .leave _ => False
  | _ => True

/-- The current altsettings of a configured device have their threads. -/
def Gadget.Served (d : Device) (g : Gadget) : Prop :=
  g.configured = true → ∀ t, t.place ∈ places d g g.currentConfig g.currentConfig →
    d.HasThread t → g.live t = true

theorem Gadget.Served.of_eq (h : g.Served d) (hlive : g'.live = g.live)
    (hconfig : g'.currentConfig = g.currentConfig)
    (haltsetting : g'.currentAltsetting = g.currentAltsetting)
    (hconfigured : g'.configured = g.configured) : g'.Served d := by
  intro hdone t hplace hthread
  rw [hconfigured] at hdone
  rw [places_congr haltsetting, hconfig] at hplace
  rw [hlive]
  exact h hdone t hplace hthread

theorem Untouched.served (h : Untouched g g') (hserved : g.Served d) : g'.Served d :=
  hserved.of_eq h.live h.currentConfig h.currentAltsetting h.configured

/-- A reset leaves no configuration. -/
theorem reset_unconfigured (h : reset d o g = some g') : g'.configured = false := by
  unfold reset at h
  split at h
  · obtain ⟨g1, -, rfl⟩ := Option.map_eq_some_iff.mp h
    rfl
  · rename_i hconfigured
    rw [← Option.some.inj h]
    simpa using hconfigured

/-- Altsettings zero that are started have their threads and are the current ones. -/
theorem startAll_live {c : ℕ} : ∀ {l : List Place} {g g' : Gadget},
    overPlaces (fun p g => processEps d o p (g.choose c p.interface 0)) l g = some g' →
      g'.currentConfig = g.currentConfig ∧
      (∀ i, g.currentAltsetting c i = 0 ∨ i ∈ l.map (·.interface) → g'.currentAltsetting c i = 0) ∧
      ∀ t, d.HasThread t → g.live t = true ∨ t.place ∈ l → g'.live t = true
  | [], g, g', h => by
    rw [← Option.some.inj h]
    exact ⟨rfl, by simp, by simp⟩
  | p :: rest, g, g', h => by
    obtain ⟨g1, h1, h2⟩ := Option.bind_eq_some_iff.mp h
    obtain ⟨hconfig, hzero, hlive⟩ := startAll_live h2
    obtain ⟨alt, halt, hkept, -, hstarted, -⟩ := processEps_some h1
    refine ⟨hconfig.trans hkept.currentConfig, fun i hi => hzero i ?_, fun t hthread ht =>
      hlive t hthread ?_⟩
    · rw [hkept.currentAltsetting]
      show (if c = c ∧ i = p.interface then 0 else g.currentAltsetting c i) = 0 ∨ _
      by_cases hhere : i = p.interface
      · exact .inl (if_pos ⟨rfl, hhere⟩)
      · rw [if_neg fun h => hhere h.2]
        rw [List.map_cons, List.mem_cons] at hi
        exact hi.imp_right fun h => h.resolve_left hhere
    · rw [hstarted]
      by_cases hplace : t.place = p
      · obtain ⟨alt', halt', hlt⟩ := hthread
        rw [hplace, halt] at halt'
        cases halt'
        rw [if_pos hplace]
        exact .inl (decide_eq_true hlt)
      · rw [if_neg hplace]
        exact ht.imp_right fun h => (List.mem_cons.mp h).resolve_left hplace

theorem Gadget.Served.setConfiguration {s : CaptureSetup} (hserved : g.Served d)
    (h : setConfiguration d o s g = some g') : g'.Served d := by
  unfold Proxy.setConfiguration at h
  split at h
  · exact Option.some.inj h ▸ hserved
  · rename_i c _
    obtain ⟨g2, h2, rfl⟩ := Option.map_eq_some_iff.mp h
    obtain ⟨g1, -, h2⟩ := Option.bind_eq_some_iff.mp h2
    obtain ⟨hconfig, hzero, hlive⟩ := startAll_live h2
    refine (untouched_ack { g2 with configured := true } s).served fun _ t hplace hthread => ?_
    obtain ⟨hc, hi, hk⟩ := mem_places.mp hplace
    dsimp only at hc hi hk hconfig
    rw [hconfig] at hc hi hk
    refine hlive t hthread (.inr (List.mem_map.mpr ⟨t.place.interface, List.mem_range.mpr hi, ?_⟩))
    have hfirst : g2.currentAltsetting c t.place.interface = 0 := by
      refine hzero _ (.inr ?_)
      rw [List.map_map]
      exact List.mem_map.mpr ⟨_, List.mem_range.mpr hi, rfl⟩
    rw [← hc, ← hfirst, ← hk]

theorem Gadget.Served.setInterface {s : CaptureSetup} (hserved : g.Served d)
    (hseen : ∀ t, o.seen t = false) (h : setInterface d o s g = some g') : g'.Served d := by
  unfold Proxy.setInterface at h
  dsimp only at h
  split at h
  · exact Option.some.inj h ▸ hserved
  · rename_i i _
    split at h
    · exact Option.some.inj h ▸ hserved
    · rename_i k _
      split at h
      · exact Option.some.inj h ▸ (untouched_ack g s).served hserved
      · obtain ⟨g2, h2, rfl⟩ := Option.map_eq_some_iff.mp h
        obtain ⟨g1, h1, h2⟩ := Option.bind_eq_some_iff.mp h2
        obtain ⟨-, -, -, hkept1, -, hstopped, -⟩ := terminateEps_some h1
        obtain ⟨alt, halt, hkept2, -, hstarted, -⟩ := processEps_some h2
        refine (untouched_ack (g2.choose _ i k) s).served fun hconfigured t hplace hthread => ?_
        obtain ⟨hc, hi, hk⟩ := mem_places.mp hplace
        have hconfig : (g2.choose g.currentConfig i k).currentConfig = g.currentConfig :=
          hkept2.currentConfig.trans hkept1.currentConfig
        rw [hconfig] at hc hi hk
        have hdone : g.configured = true := by
          rw [← hkept1.configured, ← hkept2.configured]
          exact hconfigured
        show g2.live t = true
        rw [hstarted]
        by_cases hnew : t.place = ⟨g.currentConfig, i, k⟩
        · obtain ⟨alt', halt', hlt⟩ := hthread
          rw [hnew, halt] at halt'
          cases halt'
          rw [if_pos hnew]
          exact decide_eq_true hlt
        · rw [if_neg hnew, hstopped, hseen]
          -- it belongs to another interface
          have hother : t.place.interface ≠ i := by
            intro hhere
            refine hnew ?_
            have hchosen : t.place.altsetting = k := hk.trans (if_pos ⟨rfl, hhere⟩)
            rw [← hc, ← hhere, ← hchosen]
          have hsame : t.place.altsetting = g.currentAltsetting g.currentConfig t.place.interface := by
            rw [← hkept1.currentAltsetting, ← hkept2.currentAltsetting]
            exact hk.trans (if_neg fun h => hother h.2)
          have hthere := hserved hdone t (mem_places.mpr ⟨hc, hi, hsame⟩) hthread
          have hne : t.place ≠ ⟨g.currentConfig, i, g.currentAltsetting g.currentConfig i⟩ :=
            fun h => hother (congrArg Place.interface h)
          simp [hthere, hne]

theorem Gadget.Served.control {s : CaptureSetup} (hserved : g.Served d)
    (hx : Undisturbed (.control o s)) (hrun : control fuel d o s g = some g') : g'.Served d := by
  have hfetched : (g.fetched 2 (some s)).Served d := hserved.of_eq rfl rfl rfl rfl
  unfold Proxy.control at hrun
  dsimp only at hrun
  by_cases hlong : 4096 < s.length.toNat
  · rw [if_pos hlong] at hrun
    exact Option.some.inj hrun ▸ (untouched_stall _ s).served hfetched
  rw [if_neg hlong] at hrun
  by_cases hin : s.type.getLsbD 7 = true
  · rw [if_pos hin] at hrun
    exact (untouched_inRequest hrun).served hfetched
  rw [if_neg hin] at hrun
  by_cases h9 : s.type.toNat / 32 % 4 = 0 ∧ s.request = 9#8
  · rw [if_pos h9] at hrun
    exact hfetched.setConfiguration hrun
  rw [if_neg h9] at hrun
  by_cases h11 : s.type.toNat / 32 % 4 = 0 ∧ s.request = 11#8
  · rw [if_pos h11] at hrun
    exact hfetched.setInterface (hx ⟨by omega, by simpa using hin, h11⟩) hrun
  rw [if_neg h11] at hrun
  exact (untouched_outRequest hrun).served hfetched

theorem Gadget.Served.step {x : Step} (hserved : g.Served d) (hx : Undisturbed x)
    (hrun : Proxy.step fuel d g x = some g') : g'.Served d := by
  cases step_cases hrun with
  | control hcontrol => exact hserved.control hx hcontrol
  | reset hreset =>
    intro hconfigured
    rw [reset_unconfigured hreset] at hconfigured
    cases hconfigured
  | left t => exact hx.elim
  | fetched | same | read | thread | pipe | server | elapsed =>
    exact hserved.of_eq rfl rfl rfl rfl

/-- **The threads keep running.**  While no thread leaves its loop by itself and none takes the flag
that stops another interface's threads for its own, every endpoint of the current altsettings has
its reader and its writer, whatever the host does. -/
theorem threads_running (h : Reaches d (fun _ x => Undisturbed x) g) (t : Thread)
    (hconfigured : g.configured = true)
    (hplace : t.place ∈ places d g g.currentConfig g.currentConfig) {alt : Altsetting}
    (halt : d.altsetting t.place = some alt) (hlt : t.endpoint < alt.endpoints.length) :
    g.live t = true := by
  have hserved : g.Served d := by
    clear hconfigured hplace
    induction h with
    | start =>
      intro hconfigured
      cases hconfigured
    | step _ hx hstep ih => exact ih.step hx hstep
  exact hserved hconfigured t hplace ⟨alt, halt, hlt⟩

theorem threads_running_sample : ∃ g : Gadget, g.configured = true ∧
    g.live ⟨⟨0, 0, 0⟩, 0, true⟩ = true := by
  obtain ⟨g, hstep, hg⟩ := (Option.any_eq_true _ _).mp sample_configured
  simp only [Bool.and_eq_true, beq_iff_eq] at hg
  obtain ⟨⟨hconfigured, hconfig⟩, hcurrent⟩ := hg
  have hplace : (⟨0, 0, 0⟩ : Place) ∈ places sampleMouse g g.currentConfig g.currentConfig := by
    rw [mem_places, hconfig]
    exact ⟨rfl, by decide, hcurrent.symm⟩
  have halt : sampleMouse.altsetting ⟨0, 0, 0⟩ = some sampleAltsetting := rfl
  have hundisturbed : Undisturbed (.control {} sampleSet) := fun _ _ => rfl
  have hreaches : Reaches sampleMouse (fun _ x => Undisturbed x) g :=
    .step .start hundisturbed hstep
  exact ⟨g, hconfigured, threads_running hreaches ⟨⟨0, 0, 0⟩, 0, true⟩ hconfigured hplace halt
    (by decide)⟩

/-! ### Which changes of configuration are safe -/

/-- Stopping altsettings succeeds only for ones that are up. -/
theorem stopAll_up (hends : ∀ p alt, d.altsetting p = some alt → alt.endpoints ≠ []) :
    ∀ {l : List Place} {g g' : Gadget}, overPlaces (terminateEps d o) l g = some g' →
      (∀ p ∈ l, g.up p = true) ∧ ∀ q, g.up q = true → q ∉ l → g'.up q = true
  | [], g, g', h => by
    rw [← Option.some.inj h]
    exact ⟨by simp, fun q hq _ => hq⟩
  | p :: rest, g, g', h => by
    obtain ⟨g1, h1, h2⟩ := Option.bind_eq_some_iff.mp h
    obtain ⟨alt, halt, hp, -, hup, -⟩ := terminateEps_some h1
    obtain ⟨hrest, hkeep⟩ := stopAll_up hends h2
    have hother {q : Place} (hq : q ≠ p) : g1.up q = g.up q := by
      rw [hup, Function.update_of_ne hq]
    refine ⟨List.forall_mem_cons.mpr ⟨hp (hends p alt halt), fun q hq => ?_⟩, ?_⟩
    · by_cases hqp : q = p
      · exact hqp ▸ hp (hends p alt halt)
      · rw [← hother hqp]
        exact hrest q hq
    · intro q hq hmem
      rw [List.mem_cons, not_or] at hmem
      exact hkeep q ((hother hmem.1).trans hq) hmem.2

/-- Starting altsettings stops none. -/
theorem startAll_up {c : ℕ} : ∀ {l : List Place} {g g' : Gadget},
    overPlaces (fun p g => processEps d o p (g.choose c p.interface 0)) l g = some g' →
      (∀ q, g.up q = true → g'.up q = true) ∧ g'.currentConfig = g.currentConfig
  | [], g, g', h => by
    rw [← Option.some.inj h]
    exact ⟨fun _ => id, rfl⟩
  | p :: rest, g, g', h => by
    obtain ⟨g1, h1, h2⟩ := Option.bind_eq_some_iff.mp h
    obtain ⟨hrest, hconfig⟩ := startAll_up h2
    obtain ⟨-, -, hkept, hup, -⟩ := processEps_some h1
    refine ⟨fun q hq => hrest q ?_, hconfig.trans hkept.currentConfig⟩
    rw [hup]
    by_cases hqp : q = p
    · rw [hqp, Function.update_self]
    · rw [Function.update_of_ne hqp]
      exact hq

theorem setConfiguration_some {s : CaptureSetup} {c : ℕ} (hconfigured : g.configured = true)
    (hfind : d.configs.findIdx? (fun c => c.configurationValue == s.value.toNat) = some c)
    (h : setConfiguration d o s g = some g') :
    ∃ g1 g2, overPlaces (terminateEps d o) (places d g g.currentConfig c) g = some g1 ∧
      overPlaces (fun p g => processEps d o p (g.choose c p.interface 0))
        ((List.range (d.interfaces c).length).map (⟨c, ·, 0⟩)) { g1 with currentConfig := c } =
          some g2 ∧
      g' = { g2 with configured := true }.ack o s := by
  unfold setConfiguration at h
  rw [hfind] at h
  dsimp only at h
  rw [if_pos hconfigured] at h
  obtain ⟨g2, h2, rfl⟩ := Option.map_eq_some_iff.mp h
  obtain ⟨g1, h1, h2⟩ := Option.bind_eq_some_iff.mp h2
  exact ⟨g1, g2, h1, h2, rfl⟩

theorem control_setConfiguration {s : CaptureSetup} (hs : Standard s 9) (g : Gadget) :
    control fuel d o s g = setConfiguration d o s (g.fetched 2 (some s)) := by
  unfold control
  dsimp only
  obtain ⟨hshort, hout, htype, hrequest⟩ := hs
  rw [if_neg (by omega), if_neg (by rw [hout]; exact Bool.false_ne_true),
    if_pos ⟨htype, hrequest⟩]

/-- **When a change of configuration is safe.**  The altsettings it stops are counted and chosen by
the new configuration: with endpoints everywhere, it goes through and leaves up exactly the
altsettings of the new configuration if and only if what it stops is what is up. -/
theorem change_safe_iff (hd : d.Wf)
    (hends : ∀ p alt, d.altsetting p = some alt → alt.endpoints ≠ [])
    (h : Reaches d (Orderly d) g) (hconfigured : g.configured = true) {s : CaptureSetup}
    (hs : Standard s 9) {c : ℕ}
    (hfind : d.configs.findIdx? (fun c => c.configurationValue == s.value.toNat) = some c) :
    (∃ g', step fuel d g (.control o s) = some g' ∧
      ∀ p, g'.up p = true ↔ p ∈ places d g' c c) ↔ Matched d g c := by
  have hinv := h.inv hd fun _ _ hx => hx
  have hplaces (c' c'' : ℕ) : places d (g.fetched 2 (some s)) c' c'' = places d g c' c'' := rfl
  constructor
  · rintro ⟨g', hrun, hup⟩
    rw [step, control_setConfiguration hs] at hrun
    obtain ⟨g1, g2, hstop, hstart, rfl⟩ := setConfiguration_some (by exact hconfigured) hfind hrun
    obtain ⟨hstopped, hleft⟩ := stopAll_up hends hstop
    obtain ⟨hkept, -⟩ := startAll_up hstart
    -- every altsetting it stops was up
    have hcurrent {i : ℕ} (hi : i < (d.interfaces c).length) :
        i < (d.interfaces g.currentConfig).length ∧
          g.currentAltsetting c i = g.currentAltsetting g.currentConfig i := by
      have hmem : (⟨g.currentConfig, i, g.currentAltsetting c i⟩ : Place) ∈
          places d g g.currentConfig c := mem_places.mpr ⟨rfl, hi, rfl⟩
      have hthere := (hinv.covers.up _).mp (hstopped _ hmem)
      obtain ⟨-, hlt, hsame⟩ := mem_places.mp hthere.2
      exact ⟨hlt, hsame⟩
    have hle : (d.interfaces c).length ≤ (d.interfaces g.currentConfig).length := by
      by_contra hlonger
      have hfirst := (hcurrent (i := (d.interfaces g.currentConfig).length) (by omega)).1
      omega
    -- and nothing that was up is left up
    have hge : (d.interfaces g.currentConfig).length ≤ (d.interfaces c).length := by
      by_contra hshorter
      have hthere : g.up ⟨g.currentConfig, (d.interfaces c).length,
          g.currentAltsetting g.currentConfig (d.interfaces c).length⟩ = true :=
        (hinv.covers.up _).mpr ⟨hconfigured, mem_places.mpr ⟨rfl, by dsimp only; omega, rfl⟩⟩
      have hbehind : (⟨g.currentConfig, (d.interfaces c).length,
          g.currentAltsetting g.currentConfig (d.interfaces c).length⟩ : Place) ∉
          places d (g.fetched 2 (some s)) (g.fetched 2 (some s)).currentConfig c := by
        intro hmem
        have hlt := (mem_places.mp hmem).2.1
        dsimp only at hlt
        omega
      have hlast := hkept _ (hleft _ hthere hbehind)
      have hstill : ({ g2 with configured := true }.ack o s).up ⟨g.currentConfig,
          (d.interfaces c).length,
          g.currentAltsetting g.currentConfig (d.interfaces c).length⟩ = true := by
        rw [(untouched_ack (o := o) { g2 with configured := true } s).up]
        exact hlast
      have hlt := (mem_places.mp ((hup _).mp hstill)).2.1
      dsimp only at hlt
      omega
    have hlength := le_antisymm hle hge
    unfold Matched places
    rw [hlength]
    refine List.map_congr_left fun i hi => ?_
    rw [List.mem_range, ← hlength] at hi
    rw [(hcurrent hi).2]
  · intro hmatched
    have horderly : Orderly d g (.control o s) := by
      refine ⟨fun _ c' hfind' _ => ?_, fun _ => hconfigured⟩
      rw [hfind] at hfind'
      exact Option.some.inj hfind' ▸ hmatched
    obtain ⟨g', hrun, hinv'⟩ := (hinv.fetched 2 (some s)).setConfiguration (o := o) hd
      (horderly.1 hs)
    refine ⟨g', by rw [step, control_setConfiguration hs, hrun], fun p => ?_⟩
    obtain ⟨g1, g2, -, hstart, rfl⟩ := setConfiguration_some (by exact hconfigured) hfind hrun
    obtain ⟨-, hconfig⟩ := startAll_up hstart
    have hsame := untouched_ack (o := o) { g2 with configured := true } s
    have hhere : ({ g2 with configured := true }.ack o s).currentConfig = c :=
      hsame.currentConfig.trans hconfig
    rw [hinv'.covers.up]
    unfold Gadget.Current
    rw [hsame.configured, hhere]
    exact ⟨fun hp => hp.2, fun hp => ⟨rfl, hp⟩⟩

/-- A device may be configured again. -/
theorem change_safe_sample : ∃ g g' : Gadget, g.configured = true ∧
    step 0 sampleMouse g (.control {} sampleSet) = some g' ∧
      ∀ p, g'.up p = true ↔ p ∈ places sampleMouse g' 0 0 := by
  obtain ⟨g, hstep, hg⟩ := (Option.any_eq_true _ _).mp sample_configured
  simp only [Bool.and_eq_true, beq_iff_eq] at hg
  have hends : ∀ p alt, sampleMouse.altsetting p = some alt → alt.endpoints ≠ [] := by
    intro p alt halt
    rw [(sampleMouse_altsetting halt).2]
    exact List.cons_ne_nil _ _
  have hmatched : Matched sampleMouse g 0 := by
    unfold Matched
    rw [hg.1.2]
  obtain ⟨g', hrun, hup⟩ := (change_safe_iff sampleMouse_wf hends
    (.step .start (orderly_start _ _) hstep) hg.1.1 (s := sampleSet) (by decide) rfl).mpr hmatched
  exact ⟨g, g', hg.1.1, hrun, hup⟩

end UsbProxy.Proxy
