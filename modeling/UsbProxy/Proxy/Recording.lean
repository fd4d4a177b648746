import UsbProxy.Proxy.Runs
import UsbProxy.Replay.Enumeration

/-!
# What the proxy records and what its rules keep back

The control records of a recording are what the host heard, in order; so the replayer says to a host
what the proxied device said to the recorded one.  Nothing that a rule ignores or stalls gets
through.
-/

namespace UsbProxy

open Bits Hex

/-! ### Recording in pieces -/

/-- The request that is pending after some calls. -/
def pendingAfter : Option CaptureSetup → List Call → Option CaptureSetup
  | pending, [] => pending
  | pending, .speed _ :: rest => pendingAfter pending rest
  | _, .event _ request :: rest => pendingAfter request rest
  | _, .reply _ _ :: rest => pendingAfter none rest
  | pending, .report _ _ _ :: rest => pendingAfter pending rest

theorem captured_append (l' : List Call) : ∀ (pending : Option CaptureSetup) (l : List Call),
    captured pending (l ++ l') = captured pending l ++ captured (pendingAfter pending l) l'
  | none, [] | some _, [] => rfl
  | none, .speed _ :: rest | some _, .speed _ :: rest
  | none, .event _ _ :: rest | some _, .event _ _ :: rest
  | none, .reply _ _ :: rest | some _, .reply _ _ :: rest
  | none, .report _ _ _ :: rest | some _, .report _ _ _ :: rest => by
    simp [captured, pendingAfter, captured_append l' _ rest]

theorem pendingAfter_append (l' : List Call) : ∀ (pending : Option CaptureSetup) (l : List Call),
    pendingAfter pending (l ++ l') = pendingAfter (pendingAfter pending l) l'
  | _, [] => rfl
  | _, .speed _ :: rest | _, .event _ _ :: rest | _, .reply _ _ :: rest
  | _, .report _ _ _ :: rest => pendingAfter_append l' _ rest

def Record.isControl : Record → Bool
  | .control .. => true
  | _ => false

/-- The records of control transfers. -/
def exchanges (calls : List Call) : List Record := (captured none calls).filter Record.isControl

theorem exchanges_append (l l' : List Call) : exchanges (l ++ l') =
    exchanges l ++ (captured (pendingAfter none l) l').filter Record.isControl := by
  unfold exchanges
  rw [captured_append, List.filter_append]

namespace Proxy

variable {d : Device} {o : Outside} {g g' : Gadget} {fuel : ℕ} {s : CaptureSetup}

/-! ### The recording of a run -/

/-- What the host heard, as it is recorded. -/
def heardRecord : CaptureSetup × Response → Record
  | (s, .stall) => .control s (ascii "stall") (hex [])
  | (s, .write data) => .control s (ascii "ack") (hex data)
  | (s, .read data) => .control s (ascii "ack") (hex data)

/-- The control records are what the host heard. -/
def Gadget.Faithful (g : Gadget) : Prop := exchanges g.calls = g.heard.map heardRecord

/-- So far, and the request is pending. -/
structure Gadget.Pending (g : Gadget) (s : CaptureSetup) : Prop where
  faithful : g.Faithful
  pending : pendingAfter none g.calls = some s

theorem Gadget.Faithful.of_eq (h : g.Faithful) (hcalls : g'.calls = g.calls)
    (hheard : g'.heard = g.heard) : g'.Faithful := by
  unfold Gadget.Faithful
  rw [hcalls, hheard]
  exact h

theorem Gadget.Pending.of_eq (h : g.Pending s) (hcalls : g'.calls = g.calls)
    (hheard : g'.heard = g.heard) : g'.Pending s :=
  ⟨h.faithful.of_eq hcalls hheard, by rw [hcalls, h.pending]⟩

theorem Gadget.Faithful.fetched (h : g.Faithful) (type : ℕ) (request : Option CaptureSetup) :
    (g.fetched type request).Faithful := by
  unfold Gadget.Faithful Gadget.fetched
  dsimp only
  rw [exchanges_append, h]
  cases pendingAfter none g.calls <;> simp [captured, Record.isControl]

theorem Gadget.Faithful.pending (h : g.Faithful) (s : CaptureSetup) :
    (g.fetched 2 (some s)).Pending s := by
  refine ⟨h.fetched 2 (some s), ?_⟩
  show pendingAfter none (g.calls ++ [.event 2 (some s)]) = some s
  rw [pendingAfter_append]
  rfl

/-- A reply is recorded with the pending request. -/
theorem Gadget.Pending.replied (h : g.Pending s) {status data : List Byte} {r : Response}
    (hr : heardRecord (s, r) = .control s status (hex data))
    (hcalls : g'.calls = g.calls ++ [.reply status data])
    (hheard : g'.heard = g.heard ++ [(s, r)]) : g'.Faithful := by
  unfold Gadget.Faithful
  rw [hcalls, hheard, exchanges_append, h.pending, h.faithful, List.map_append]
  simp [captured, Record.isControl, hr]

theorem Gadget.Pending.stall (h : g.Pending s) : (g.stall o s).Faithful := by
  unfold Gadget.stall
  split
  · exact h.replied (r := .stall) rfl rfl rfl
  · exact h.faithful

theorem Gadget.Pending.ack (h : g.Pending s) : (g.ack o s).Faithful := by
  unfold Gadget.ack
  split
  · exact h.faithful
  · rename_i data _
    exact h.replied (r := .read data) rfl rfl rfl

theorem Gadget.Pending.write (h : g.Pending s) (data : List Byte) : (g.write o s data).Faithful :=
  h.replied (r := .write (data.take o.sent)) rfl rfl rfl

/-- Starting and stopping endpoints says nothing to the host. -/
def Quiet (f : Gadget → Option Gadget) : Prop :=
  ∀ g g', f g = some g' → g'.calls = g.calls ∧ g'.heard = g.heard ∧ g'.asked = g.asked

theorem quiet_overPlaces {f : Place → Gadget → Option Gadget} (hf : ∀ p, Quiet (f p)) :
    ∀ l, Quiet (overPlaces f l)
  | [], g, g', h => Option.some.inj h ▸ ⟨rfl, rfl, rfl⟩
  | p :: rest, g, g', h => by
    obtain ⟨g1, h1, h2⟩ := Option.bind_eq_some_iff.mp h
    obtain ⟨hcalls, hheard, hasked⟩ := hf p g g1 h1
    obtain ⟨hcalls', hheard', hasked'⟩ := quiet_overPlaces hf rest g1 g' h2
    exact ⟨hcalls'.trans hcalls, hheard'.trans hheard, hasked'.trans hasked⟩

theorem quiet_terminateEps (p : Place) : Quiet (terminateEps d o p) := by
  intro g g' h
  obtain ⟨alt, -, -, hkept, -⟩ := terminateEps_some h
  exact ⟨hkept.calls, hkept.heard, hkept.asked⟩

theorem quiet_processEps (p : Place) : Quiet (processEps d o p) := by
  intro g g' h
  obtain ⟨alt, -, hkept, -⟩ := processEps_some h
  exact ⟨hkept.calls, hkept.heard, hkept.asked⟩

theorem quiet_reset : Quiet (reset d o) := by
  intro g g' h
  unfold reset at h
  split at h
  · obtain ⟨g1, h1, rfl⟩ := Option.map_eq_some_iff.mp h
    refine quiet_overPlaces (fun p g g' hp => ?_) _ g g1 h1
    obtain ⟨g2, h2, rfl⟩ := Option.map_eq_some_iff.mp hp
    exact quiet_terminateEps p g g2 h2
  · exact Option.some.inj h ▸ ⟨rfl, rfl, rfl⟩

/-- The request is acknowledged, or not answered at all. -/
def Acknowledged (o : Outside) (s : CaptureSetup) (g g' : Gadget) : Prop :=
  g' = g ∨ ∃ g1 : Gadget, g' = g1.ack o s ∧ g1.calls = g.calls ∧ g1.heard = g.heard ∧
    g1.asked = g.asked

theorem setConfiguration_acknowledged (h : setConfiguration d o s g = some g') :
    Acknowledged o s g g' := by
  unfold setConfiguration at h
  split at h
  · exact .inl (Option.some.inj h).symm
  · rename_i c _
    obtain ⟨g2, h2, rfl⟩ := Option.map_eq_some_iff.mp h
    obtain ⟨g1, h1, h2⟩ := Option.bind_eq_some_iff.mp h2
    have hstopped : g1.calls = g.calls ∧ g1.heard = g.heard ∧ g1.asked = g.asked := by
      split at h1
      · exact quiet_overPlaces (fun p => quiet_terminateEps p) _ g g1 h1
      · exact Option.some.inj h1 ▸ ⟨rfl, rfl, rfl⟩
    obtain ⟨hcalls, hheard, hasked⟩ := quiet_overPlaces
      (fun p g g' hp => quiet_processEps p (g.choose c p.interface 0) g' hp) _ _ g2 h2
    exact .inr ⟨{ g2 with configured := true }, rfl, hcalls.trans hstopped.1,
      hheard.trans hstopped.2.1, hasked.trans hstopped.2.2⟩

theorem setInterface_acknowledged (h : setInterface d o s g = some g') :
    Acknowledged o s g g' := by
  unfold setInterface at h
  dsimp only at h
  split at h
  · exact .inl (Option.some.inj h).symm
  · split at h
    · exact .inl (Option.some.inj h).symm
    · split at h
      · exact .inr ⟨g, (Option.some.inj h).symm, rfl, rfl, rfl⟩
      · obtain ⟨g2, h2, rfl⟩ := Option.map_eq_some_iff.mp h
        obtain ⟨g1, h1, h2⟩ := Option.bind_eq_some_iff.mp h2
        obtain ⟨hcalls, hheard, hasked⟩ := quiet_terminateEps _ g g1 h1
        obtain ⟨hcalls', hheard', hasked'⟩ := quiet_processEps _ g1 g2 h2
        exact .inr ⟨g2.choose _ _ _, rfl, hcalls'.trans hcalls, hheard'.trans hheard,
          hasked'.trans hasked⟩

theorem followProtocol_quiet (s : CaptureSetup) (g : Gadget) :
    (followProtocol d s g).calls = g.calls ∧ (followProtocol d s g).heard = g.heard ∧
      (followProtocol d s g).asked = g.asked := by
  unfold followProtocol
  split <;> exact ⟨rfl, rfl, rfl⟩

theorem Gadget.Pending.inRequest (h : g.Pending s) (hrun : inRequest fuel d o s g = some g') :
    g'.Faithful := by
  have hasked : (g.ask s []).Pending s := h.of_eq rfl rfl
  unfold Proxy.inRequest at hrun
  dsimp only at hrun
  split at hrun
  · exact Option.some.inj hrun ▸ hasked.stall
  · split at hrun
    · cases hrun
    · exact Option.some.inj hrun ▸ hasked.faithful
    · exact Option.some.inj hrun ▸ hasked.stall
    · rename_i s' io _
      have hlearned : { g.ask s [] with world := overhear s' io.data g.world }.Pending s :=
        hasked.of_eq rfl rfl
      exact Option.some.inj hrun ▸ hlearned.write _

theorem Gadget.Pending.outRequest (h : g.Pending s) (hrun : outRequest fuel d o s g = some g') :
    g'.Faithful := by
  unfold Proxy.outRequest at hrun
  split at hrun
  · cases hrun
  · exact Option.some.inj hrun ▸ h.faithful
  · exact Option.some.inj hrun ▸ h.stall
  · rename_i s' io _
    have hasked : (g.ask s' []).Pending s := h.of_eq rfl rfl
    dsimp only at hrun
    split at hrun
    · split at hrun
      · exact Option.some.inj hrun ▸ hasked.stall
      · have hfollowed : (followProtocol d s' (g.ask s' [])).Pending s :=
          hasked.of_eq (followProtocol_quiet ..).1 (followProtocol_quiet ..).2.1
        exact Option.some.inj hrun ▸ hfollowed.ack
    · split at hrun
      · exact Option.some.inj hrun ▸ h.faithful
      · split at hrun
        · cases hrun
        · exact Option.some.inj hrun ▸ h.ack.of_eq rfl rfl

theorem Gadget.Faithful.control (h : g.Faithful) (hrun : control fuel d o s g = some g') :
    g'.Faithful := by
  have hpending := h.pending s
  have hacknowledged (hdone : Acknowledged o s (g.fetched 2 (some s)) g') : g'.Faithful := by
    rcases hdone with rfl | ⟨g1, rfl, hcalls, hheard, -⟩
    · exact hpending.faithful
    · exact (hpending.of_eq hcalls hheard).ack
  unfold Proxy.control at hrun
  dsimp only at hrun
  split at hrun
  · exact Option.some.inj hrun ▸ hpending.stall
  · split at hrun
    · exact hpending.inRequest hrun
    · split at hrun
      · exact hacknowledged (setConfiguration_acknowledged hrun)
      · split at hrun
        · exact hacknowledged (setInterface_acknowledged hrun)
        · exact hpending.outRequest hrun

theorem sampled_records (w : World) (a : ℕ) (data : List Byte) (pending : Option CaptureSetup) :
    (captured pending (sampled w a data)).filter Record.isControl = [] := by
  unfold sampled
  split
  · cases pending <;> rfl
  · split
    · cases pending <;> rfl
    · cases pending <;> rfl

theorem Gadget.Faithful.step (h : g.Faithful) {x : Step} (hrun : Proxy.step fuel d g x = some g') :
    g'.Faithful := by
  cases step_cases hrun with
  | control hcontrol => exact h.control hcontrol
  | @reset o type _ hreset =>
    obtain ⟨hcalls, hheard, -⟩ := quiet_reset _ g' hreset
    exact (h.fetched type none).of_eq hcalls hheard
  | fetched o type => exact h.fetched type none
  | read io _ _ =>
    unfold Gadget.Faithful
    dsimp only
    rw [exchanges_append, sampled_records, List.append_nil]
    exact h
  | same | thread | pipe | left | server | elapsed => exact h.of_eq rfl rfl

theorem Reaches.faithful {allowed : Gadget → Step → Prop} (h : Reaches d allowed g) :
    g.Faithful := by
  induction h with
  | start => rfl
  | step _ _ hstep ih => exact ih.step hstep

/-- **The recording is what the host heard.**  Whatever the host, the device, the rules and the
threads did, the control records of the file are the host's requests that got an answer, in order
and each with its answer. -/
theorem recording_exact {allowed : Gadget → Step → Prop} (h : Reaches d allowed g) :
    (captureFile g.calls).filter Record.isControl = g.heard.map heardRecord := by
  have hrecords : exchanges g.calls = g.heard.map heardRecord := h.faithful
  exact hrecords

theorem recording_exact_sample : ∃ g : Gadget, g.heard ≠ [] ∧
    (captureFile g.calls).filter Record.isControl = g.heard.map heardRecord := by
  obtain ⟨g, hstep, hheard⟩ := (Option.any_eq_true _ _).mp
    (show (step 0 sampleMouse (start sampleMouse) (.control {} sampleSet)).any
      (fun g => decide (g.heard = [(sampleSet, .read [])])) = true by decide +kernel)
  refine ⟨g, by rw [of_decide_eq_true hheard]; simp, ?_⟩
  have hreaches : Reaches sampleMouse (fun _ _ => True) g := .step .start trivial hstep
  exact recording_exact hreaches

/-! ### What the rules keep back -/

/-- No enabled rule ignores or stalls the request. -/
def Device.Lets (d : Device) (s : CaptureSetup) : Prop :=
  ∀ rule ∈ d.injectionConfig.control.stall ++ d.injectionConfig.control.ignore, rule.hits s = false

/-- What the host was told by reading, and what the device was told, no rule keeps back. -/
structure Gadget.Enforced (d : Device) (g : Gadget) : Prop where
  heard : ∀ s data, (s, .write data) ∈ g.heard → d.Lets s
  asked : ∀ s data, (s, data) ∈ g.asked → s.type.getLsbD 7 = false → d.Lets s

theorem Gadget.Enforced.of_eq (h : g.Enforced d) (hheard : g'.heard = g.heard)
    (hasked : g'.asked = g.asked) : g'.Enforced d :=
  ⟨by rw [hheard]; exact h.heard, by rw [hasked]; exact h.asked⟩

theorem Gadget.Enforced.stall (h : g.Enforced d) : (g.stall o s).Enforced d := by
  unfold Gadget.stall
  split
  · refine ⟨fun s' data hmem => ?_, h.asked⟩
    rcases List.mem_append.mp hmem with hmem | hmem
    · exact h.heard s' data hmem
    · simp at hmem
  · exact h

theorem Gadget.Enforced.ack (h : g.Enforced d) : (g.ack o s).Enforced d := by
  unfold Gadget.ack
  split
  · exact h
  · refine ⟨fun s' data hmem => ?_, h.asked⟩
    rcases List.mem_append.mp hmem with hmem | hmem
    · exact h.heard s' data hmem
    · simp at hmem

theorem Gadget.Enforced.ask (h : g.Enforced d) (hs : s.type.getLsbD 7 = false → d.Lets s)
    (data : List Byte) : (g.ask s data).Enforced d := by
  refine ⟨h.heard, fun s' data' hmem => ?_⟩
  rcases List.mem_append.mp hmem with hmem | hmem
  · exact h.asked s' data' hmem
  · obtain ⟨rfl, -⟩ := Prod.mk.inj (List.mem_singleton.mp hmem)
    exact hs

/-- A request that passes the rules is one they let through. -/
theorem inject_lets (henabled : d.injectionEnabled = true) {io io' : Io} {s' : CaptureSetup}
    (h : inject fuel d ⟨s, io, .none⟩ = some ⟨s', io', .none⟩) :
    d.Lets s' ∧ (s.type.getLsbD 7 = true → s' = s) := by
  unfold inject at h
  rw [if_pos henabled] at h
  obtain ⟨hmodified, -, hflags⟩ := controlInjection_ok h
  refine ⟨fun rule hrule => ?_, hmodified.inward⟩
  dsimp only at hflags
  split at hflags
  · cases hflags
  · rename_i hstall
    split at hflags
    · cases hflags
    · rename_i hignore
      rw [Bool.not_eq_true, List.any_eq_false] at hstall hignore
      rcases List.mem_append.mp hrule with hrule | hrule
      · simpa using hstall rule hrule
      · simpa using hignore rule hrule

theorem Gadget.Enforced.inRequest (h : g.Enforced d) (henabled : d.injectionEnabled = true)
    (hin : s.type.getLsbD 7 = true) (hrun : inRequest fuel d o s g = some g') :
    g'.Enforced d := by
  have hasked : (g.ask s []).Enforced d :=
    h.ask (fun hout => Bool.noConfusion (hin.symm.trans hout)) []
  unfold Proxy.inRequest at hrun
  dsimp only at hrun
  split at hrun
  · exact Option.some.inj hrun ▸ hasked.stall
  · split at hrun
    · cases hrun
    · exact Option.some.inj hrun ▸ hasked
    · exact Option.some.inj hrun ▸ hasked.stall
    · rename_i s' io hinject
      obtain ⟨hlets, hsame⟩ := inject_lets henabled hinject
      rw [← Option.some.inj hrun]
      refine ⟨fun s'' data hmem => ?_, hasked.asked⟩
      rcases List.mem_append.mp hmem with hmem | hmem
      · exact hasked.heard s'' data hmem
      · obtain ⟨rfl, -⟩ := Prod.mk.inj (List.mem_singleton.mp hmem)
        exact hsame hin ▸ hlets

theorem Gadget.Enforced.outRequest (h : g.Enforced d) (henabled : d.injectionEnabled = true)
    (hrun : outRequest fuel d o s g = some g') : g'.Enforced d := by
  unfold Proxy.outRequest at hrun
  split at hrun
  · cases hrun
  · exact Option.some.inj hrun ▸ h
  · exact Option.some.inj hrun ▸ h.stall
  · rename_i s' io hinject
    obtain ⟨hlets, -⟩ := inject_lets henabled hinject
    have hasked : (g.ask s' []).Enforced d := h.ask (fun _ => hlets) []
    dsimp only at hrun
    split at hrun
    · split at hrun
      · exact Option.some.inj hrun ▸ hasked.stall
      · have hfollowed : (followProtocol d s' (g.ask s' [])).Enforced d :=
          hasked.of_eq (followProtocol_quiet ..).2.1 (followProtocol_quiet ..).2.2
        exact Option.some.inj hrun ▸ hfollowed.ack
    · split at hrun
      · exact Option.some.inj hrun ▸ h
      · split at hrun
        · cases hrun
        · exact Option.some.inj hrun ▸ h.ack.ask (fun _ => hlets) _

theorem Gadget.Enforced.control (h : g.Enforced d) (henabled : d.injectionEnabled = true)
    (hrun : control fuel d o s g = some g') : g'.Enforced d := by
  have hfetched : (g.fetched 2 (some s)).Enforced d := h.of_eq rfl rfl
  have hacknowledged (hdone : Acknowledged o s (g.fetched 2 (some s)) g') : g'.Enforced d := by
    rcases hdone with rfl | ⟨g1, rfl, -, hheard, hasked⟩
    · exact hfetched
    · exact (hfetched.of_eq hheard hasked).ack
  unfold Proxy.control at hrun
  dsimp only at hrun
  split at hrun
  · exact Option.some.inj hrun ▸ hfetched.stall
  · split at hrun
    · rename_i hin
      exact hfetched.inRequest henabled hin hrun
    · split at hrun
      · exact hacknowledged (setConfiguration_acknowledged hrun)
      · split at hrun
        · exact hacknowledged (setInterface_acknowledged hrun)
        · exact hfetched.outRequest henabled hrun

/-- The other steps say nothing to the host or the device. -/
theorem step_silent {x : Step} (hx : ∀ o s, x ≠ .control o s)
    (hrun : step fuel d g x = some g') : g'.heard = g.heard ∧ g'.asked = g.asked := by
  cases step_cases hrun with
  | @control o s => exact absurd rfl (hx o s)
  | reset hreset =>
    obtain ⟨-, hheard, hasked⟩ := quiet_reset _ g' hreset
    exact ⟨hheard, hasked⟩
  | fetched | same | read | thread | pipe | left | server | elapsed => exact ⟨rfl, rfl⟩

/-- **Nothing gets past the rules.**  With injection enabled, the host is never given data for a
request that a rule ignores or stalls, and the device is never passed such a request from the host,
but for the two standard ones that the proxy carries out itself. -/
theorem rules_enforced {allowed : Gadget → Step → Prop} (h : Reaches d allowed g)
    (henabled : d.injectionEnabled = true) :
    (∀ s data, (s, .write data) ∈ g.heard → ∀ rule ∈
      d.injectionConfig.control.stall ++ d.injectionConfig.control.ignore, rule.hits s = false) ∧
    ∀ s data, (s, data) ∈ g.asked → s.type.getLsbD 7 = false → ∀ rule ∈
      d.injectionConfig.control.stall ++ d.injectionConfig.control.ignore,
        rule.hits s = false := by
  have henforced : g.Enforced d := by
    induction h with
    | start => exact ⟨by simp [start], by simp [start]⟩
    | @step g g' fuel x _ _ hstep ih =>
      by_cases hx : ∀ o s, x ≠ .control o s
      · obtain ⟨hheard, hasked⟩ := step_silent hx hstep
        exact ih.of_eq hheard hasked
      · obtain ⟨o, s, rfl⟩ : ∃ o s, x = .control o s := by
          simpa using hx
        exact ih.control henabled hstep
  exact ⟨henforced.heard, henforced.asked⟩

/-- The mouse behind a rule that stalls a vendor request. -/
def sampleGuarded : Device :=
  { sampleMouse with
    injectionEnabled := true
    injectionConfig := { control := { stall := [{
      enable := true, bRequestType := 40, bRequest := 1 }] } } }

/-- The vendor request is stalled and kept from the device; the device descriptor is passed on. -/
theorem rules_enforced_sample : ∃ g : Gadget, Reaches sampleGuarded (fun _ _ => True) g ∧
    g.heard = [(⟨0x40, 1, 0, 0, 0⟩, .stall), (⟨0x80, 6, 0x100, 0, 2⟩, .write [18, 1])] ∧
    (∀ data, ((⟨0x40, 1, 0, 0, 0⟩ : CaptureSetup), data) ∉ g.asked) ∧
    ∀ rule ∈ sampleGuarded.injectionConfig.control.stall,
      rule.hits ⟨0x80, 6, 0x100, 0, 2⟩ = false := by
  obtain ⟨g, hrun, hheard⟩ := (Option.any_eq_true _ _).mp
    (show (run 0 sampleGuarded (start sampleGuarded) [.control {} ⟨0x40, 1, 0, 0, 0⟩,
      .control { device := some [18, 1], sent := 2 } ⟨0x80, 6, 0x100, 0, 2⟩]).any
        (fun g => decide (g.heard =
          [(⟨0x40, 1, 0, 0, 0⟩, .stall), (⟨0x80, 6, 0x100, 0, 2⟩, .write [18, 1])])) = true by
      decide +kernel)
  have hheard := of_decide_eq_true hheard
  have hreaches : Reaches sampleGuarded (fun _ _ => True) g := run_reaches .start hrun
  obtain ⟨htold, hpassed⟩ := rules_enforced hreaches rfl
  refine ⟨g, hreaches, hheard, fun data hmem => ?_, fun rule hrule => ?_⟩
  · have hrule := hpassed _ data hmem rfl _ (List.mem_append_left _ (List.mem_singleton_self _))
    exact absurd hrule (by decide)
  · refine htold ⟨0x80, 6, 0x100, 0, 2⟩ [18, 1] ?_ rule (List.mem_append_left _ hrule)
    rw [hheard]
    simp

/-- A rule can be written that matches the request. -/
theorem exists_hits_iff : (∃ rule : ControlRule, rule.hits s = true) ↔ s.Nameable := by
  constructor
  · rintro ⟨rule, hhit⟩
    exact (ControlRule.hits_iff.mp hhit).2.1
  · intro hs
    refine ⟨{
      enable := true
      bRequestType := nameOf s.type.toNat
      bRequest := nameOf s.request.toNat
      wValue := nameOf s.value.toNat
      wIndex := nameOf s.index.toNat
      wLength := nameOf s.length.toNat }, ?_⟩
    exact ControlRule.hits_iff.mpr ⟨rfl, hs, rfl, rfl, rfl, rfl, rfl⟩

theorem inject_unnamed (hs : ¬s.Nameable) (io : Io) :
    inject fuel d ⟨s, io, .none⟩ = some ⟨s, io, .none⟩ := by
  unfold inject
  split
  · exact controlInjection_unnamed hs
  · rfl

/-- **What a rule cannot name is let through.**  A rule that matches a request can be written exactly
when no field of the request has a hexadecimal letter among its digits; every other request is
answered as if there were no rules. -/
theorem rules_name_iff (fuel : ℕ) (d : Device) (o : Outside) (s : CaptureSetup) (g : Gadget) :
    ((∃ rule : ControlRule, rule.hits s = true) ↔
      ∀ v ∈ [s.type.toNat, s.request.toNat, s.value.toNat, s.index.toNat, s.length.toNat],
        ∀ digit ∈ Nat.digits 16 v, digit < 10) ∧
    ((∀ rule : ControlRule, rule.hits s = false) →
      control fuel d o s g = control fuel { d with injectionEnabled := false } o s g) := by
  constructor
  · rw [exists_hits_iff]
    simp only [List.forall_mem_cons, List.not_mem_nil, false_implies, implies_true, and_true]
    exact ⟨fun hs => ⟨hs.type, hs.request, hs.value, hs.index, hs.length⟩,
      fun ⟨htype, hrequest, hvalue, hindex, hlength⟩ =>
        ⟨htype, hrequest, hvalue, hindex, hlength⟩⟩
  · intro hmiss
    have hs : ¬s.Nameable := by
      rw [← exists_hits_iff]
      rintro ⟨rule, hhit⟩
      rw [hmiss rule] at hhit
      cases hhit
    have hin (g : Gadget) :
        inRequest fuel d o s g = inRequest fuel { d with injectionEnabled := false } o s g := by
      unfold inRequest
      simp only [inject_unnamed hs]
      rfl
    have hout (g : Gadget) :
        outRequest fuel d o s g = outRequest fuel { d with injectionEnabled := false } o s g := by
      unfold outRequest
      simp only [inject_unnamed hs]
      rfl
    unfold control
    simp only [hin, hout]
    rfl

/-- No rule matches a GET_REPORT: its type is `0xa1`. -/
example (rule : ControlRule) : rule.hits ⟨0xa1, 1, 0x100, 0, 8⟩ = false := by
  rw [← Bool.not_eq_true]
  exact fun hhit => absurd (ControlRule.hits_iff.mp hhit).2.1.type (by decide)

/-! ### From the proxied device to the replayed one -/

/-- The host heard the data to the request. -/
def Gadget.Told (g : Gadget) (setup : CaptureSetup) (data : List Byte) : Prop :=
  (setup, .write data) ∈ g.heard ∨ (setup, .read data) ∈ g.heard

theorem Gadget.Faithful.acked_iff (h : g.Faithful) {setup : CaptureSetup} {data : List Byte} :
    Acked g.calls setup data ↔ g.Told setup data := by
  have hmem : Record.control setup (ascii "ack") (hex data) ∈ captured none g.calls ↔
      g.Told setup data := by
    have hfilter : Record.control setup (ascii "ack") (hex data) ∈ captured none g.calls ↔
        Record.control setup (ascii "ack") (hex data) ∈ exchanges g.calls := by
      unfold exchanges
      rw [List.mem_filter]
      exact ⟨fun h => ⟨h, rfl⟩, fun h => h.1⟩
    rw [hfilter, h, List.mem_map]
    constructor
    · rintro ⟨⟨setup', r⟩, hr, heq⟩
      have hsame {data' : List Byte}
          (heq : Record.control setup' (ascii "ack") (hex data') =
            Record.control setup (ascii "ack") (hex data)) : setup' = setup ∧ data' = data := by
        rw [Record.control.injEq] at heq
        have hread := congrArg ofPairs heq.2.2
        rw [ofPairs_hex, ofPairs_hex] at hread
        exact ⟨heq.1, Option.some.inj hread⟩
      cases r with
      | stall =>
        rw [heardRecord, Record.control.injEq] at heq
        exact absurd heq.2.1 (by decide)
      | write data' =>
        obtain ⟨rfl, rfl⟩ := hsame heq
        exact .inl hr
      | read data' =>
        obtain ⟨rfl, rfl⟩ := hsame heq
        exact .inr hr
    · rintro (hr | hr)
      · exact ⟨_, hr, rfl⟩
      · exact ⟨_, hr, rfl⟩
  rw [← hmem]
  constructor
  · exact captured_acked none
  · intro hrecord
    obtain ⟨data', hhex, hacked⟩ := acked_of_captured hrecord
    have hread := congrArg ofPairs hhex
    rw [ofPairs_hex, ofPairs_hex] at hread
    exact Option.some.inj hread ▸ hacked

/-- **What the proxy recorded, the replayer says again.**  When the recording of a run is loaded, a
GET_DESCRIPTOR of the replayed device is answered, in every state, with the longest data that the
host of the proxy heard to it, cut to the length asked for, or stalled when it heard none; the HID
descriptors are those of the configuration. -/
theorem recorded_replayed {allowed : Gadget → Step → Prop} (h : Reaches d allowed g) {json : Json}
    {p : ReplayProfile} (hjson : json.Reproduces (captureFile g.calls))
    (hload : ReplayProfile.load json ((captureFile g.calls).map json.write) = some p)
    (epNum : ℕ → ℕ) (r : Replay.Gadget) (wrote : ℕ → Bool) (s : CaptureSetup)
    (hstandard : s.Standard) (hlength : s.length.toNat ≤ Replay.maxTransferSize) :
    ∃ response, Replay.control ⟨p, epNum⟩ r wrote s = (r, response) ∧
      (∀ i ∈ p.interfaces, s.key = hidKey i.number →
        response = .write (i.hid.take s.length.toNat)) ∧
      ((∀ i ∈ p.interfaces, s.key ≠ hidKey i.number) →
        (∀ setup data, setup.Standard → setup.key = s.key → g.Told setup data →
          s.length.toNat ≤ data.length → response = .write (data.take s.length.toNat)) ∧
        ((response = .stall ∧ ∀ setup data, setup.Standard → setup.key = s.key →
            ¬ g.Told setup data) ∨
          ∃ setup t, setup.Standard ∧ setup.key = s.key ∧ g.Told setup t ∧
            (∀ setup data, setup.Standard → setup.key = s.key → g.Told setup data → data <+: t) ∧
            response = .write (t.take s.length.toNat))) := by
  obtain ⟨response, hcontrol, hhid, hother⟩ :=
    Replay.enumeration_replayed hjson hload epNum r wrote s hstandard hlength
  simp only [h.faithful.acked_iff] at hother
  exact ⟨response, hcontrol, hhid, hother⟩

/-! ### A recorded run -/

/-- The host enumerates and configures it, and the mouse moves. -/
def sampleSteps : List Step :=
  let ask (type : Byte) (value : BitVec 16) (data : List Byte) : Step :=
    .control { device := some data, sent := data.length } ⟨type, 6, value, 0, 4096⟩
  [ask 0x80 0x100 (ReplayProfile.sampleDevice.take 8), ask 0x80 0x100 ReplayProfile.sampleDevice,
    ask 0x80 0x200 ReplayProfile.sampleConfig, ask 0x81 0x2200 ReplayProfile.sampleReport,
    .control { report := fun _ _ => ReplayProfile.sampleReport } ⟨0, 9, 1, 0, 0⟩,
    .read ⟨⟨0, 0, 0⟩, 0, false⟩ [1, 2, 3], .event {} 7]

deriving instance DecidableEq for Call

theorem sample_recorded :
    (run 0 sampleMouse (start sampleMouse) sampleSteps).map (·.calls) =
      some ReplayProfile.sampleCalls := by decide +kernel

/-- The replayer tells a host the first eight bytes of the device descriptor. -/
theorem recorded_replayed_sample : ∃ g p, Reaches sampleMouse (fun _ _ => True) g ∧
    ReplayProfile.load ReplayProfile.sampleJson
      ((captureFile g.calls).map ReplayProfile.sampleJson.write) = some p ∧
    Replay.control ⟨p, id⟩ {} (fun _ => true) ⟨0x80, 6, 0x100, 0, 8⟩ =
      ({}, .write (ReplayProfile.sampleDevice.take 8)) := by
  obtain ⟨g, hrun, hcalls⟩ := Option.map_eq_some_iff.mp sample_recorded
  obtain ⟨p, hp⟩ := Option.isSome_iff_exists.mp ReplayProfile.sample_accepted
  have hreaches := run_reaches .start hrun
  refine ⟨g, p, hreaches, by rw [hcalls, hp], ?_⟩
  have hjson : ReplayProfile.sampleJson.Reproduces (captureFile g.calls) := by
    rw [hcalls]
    decide +kernel
  obtain ⟨response, hcontrol, -, hother⟩ := recorded_replayed hreaches hjson
    (by rw [hcalls, hp]) id {} (fun _ => true) ⟨0x80, 6, 0x100, 0, 8⟩ (by decide) (by decide)
  obtain ⟨hanswer, -⟩ := hother fun i _ hkey => by
    have hvalue : (0x100#16 : BitVec 16) = 0x2100#16 := congrArg (·.2.1) hkey
    exact absurd hvalue (by decide)
  have hacked : Acked g.calls ⟨0x80, 6, 0x100, 0, 4096⟩ ReplayProfile.sampleDevice := by
    rw [hcalls]
    exact ⟨ReplayProfile.sampleCalls.take 3, 2, [], ReplayProfile.sampleCalls.drop 5, rfl, by simp⟩
  rw [hcontrol, hanswer ⟨0x80, 6, 0x100, 0, 4096⟩ ReplayProfile.sampleDevice (by decide) rfl
    (hreaches.faithful.acked_iff.mp hacked) (by decide)]
  rfl

end Proxy

end UsbProxy
