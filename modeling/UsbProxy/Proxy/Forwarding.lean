import UsbProxy.Proxy.Runs

/-!
# The transfers of the other endpoints

An endpoint that the mixer does not manage has a queue between its reader and its writer.  What comes
in on one side leaves on the other, each transfer once, in the order in which it came and as the
rules of the endpoint leave it; of the transfers from the device no more than 32 wait.
-/

namespace UsbProxy.Proxy

open Bits

variable {d : Device} {o : Outside} {g g' : Gadget} {fuel : ℕ} {e : EndpointDescriptor}
  {allowed : Gadget → Step → Prop}

/-! ### One pipe -/

/-- What came in, from the first that the writer was done with to the one that the reader holds. -/
def Pipe.transfers (pipe : Pipe) : List Io :=
  pipe.written.map (·.1) ++ pipe.writer.toList ++ pipe.dataQueue ++ pipe.reader.toList

/-- The rules of the endpoint make this transfer of what came in. -/
def Device.Leaves (d : Device) (e : EndpointDescriptor) (data : List Byte) (io : Io) : Prop :=
  ∃ fuel, endpointInjection fuel e.address.toNat (d.rules e)
    { ep := d.epNum e.address.toNat, data } = some io

structure Pipe.Forwards (d : Device) (e : EndpointDescriptor) (pipe : Pipe) : Prop where
  transfers : List.Forall₂ (d.Leaves e) pipe.received pipe.transfers
  room : e.isIn = true → pipe.dataQueue.length ≤ 32
  /-- A transfer is no longer than its buffer. -/
  fits : ∀ io ∈ pipe.transfers, io.data.length ≤ 4096
  /-- Nothing is sent on an isochronous endpoint to the device. -/
  written : ∀ x ∈ pipe.written, x.2 = true → e.isIn = true ∨ e.transferType ≠ 1

theorem Pipe.Forwards.empty : Pipe.Forwards d e {} where
  transfers := .nil
  room := fun _ => Nat.zero_le _
  fits := by simp [Pipe.transfers]
  written := by simp

/-- A step that moves transfers on within the pipe. -/
theorem Pipe.Forwards.moved {pipe pipe' : Pipe} (h : pipe.Forwards d e)
    (hreceived : pipe'.received = pipe.received) (htransfers : pipe'.transfers = pipe.transfers)
    (hroom : e.isIn = true → pipe'.dataQueue.length ≤ 32)
    (hwritten : ∀ x ∈ pipe'.written, x.2 = true → e.isIn = true ∨ e.transferType ≠ 1) :
    pipe'.Forwards d e := by
  refine ⟨?_, hroom, ?_, hwritten⟩
  · rw [hreceived, htransfers]
    exact h.transfers
  · rw [htransfers]
    exact h.fits

/-- **What the threads do keeps the transfers in order.** -/
theorem Pipe.Forwards.step {pipe pipe' : Pipe} (h : pipe.Forwards d e)
    (hmove : PipeMove fuel d e pipe pipe') : pipe'.Forwards d e := by
  cases hmove with
  | same => exact h
  | @received data io hreader hroom hdata hio =>
    have hbehind : ({ pipe with reader := some io, received := pipe.received ++ [data] } :
        Pipe).transfers = pipe.transfers ++ [io] := by
      unfold Pipe.transfers
      simp [hreader]
    obtain ⟨-, hlength⟩ := endpointInjection_fields hio
    have hshort : io.data.length ≤ 4096 := by
      have := hdata.2
      dsimp only [maxInjected] at hlength
      omega
    refine ⟨?_, h.room, ?_, h.written⟩
    · rw [hbehind]
      exact List.rel_append h.transfers (.cons ⟨fuel, hio⟩ .nil)
    · rw [hbehind]
      intro io' hmem
      rcases List.mem_append.mp hmem with hmem | hmem
      · exact h.fits io' hmem
      · rw [List.mem_singleton.mp hmem]
        exact hshort
  | @pushed io hreader hroom =>
    refine h.moved rfl ?_ (fun hin => ?_) h.written
    · unfold Pipe.transfers
      simp [hreader]
    · have hlt := hroom hin
      dsimp only
      rw [List.length_append, List.length_singleton]
      omega
  | @taken io rest hwriter hqueue =>
    refine h.moved rfl ?_ (fun hin => ?_) h.written
    · unfold Pipe.transfers
      simp [hwriter, hqueue]
    · have hle := h.room hin
      rw [hqueue, List.length_cons] at hle
      dsimp only
      omega
  | @finished io success hwriter =>
    refine h.moved rfl ?_ h.room fun x hx htrue => ?_
    · unfold Pipe.transfers
      simp [hwriter]
    · rcases List.mem_append.mp hx with hx | hx
      · exact h.written x hx htrue
      · rw [List.mem_singleton.mp hx] at htrue
        dsimp only [EndpointDescriptor.delivers] at htrue
        simp only [Bool.and_eq_true, Bool.or_eq_true, bne_iff_ne] at htrue
        exact htrue.2

/-! ### Starting and stopping -/

/-- Whole altsettings are emptied, and nothing else happens to the pipes. -/
def Flushed (g g' : Gadget) : Prop := ∀ p, g'.pipes p = g.pipes p ∨ g'.pipes p = fun _ => {}

theorem Flushed.of_eq (h : g'.pipes = g.pipes) : Flushed g g' := fun p => .inl (by rw [h])

theorem Flushed.trans {g1 g2 : Gadget} (h : Flushed g g1) (h' : Flushed g1 g2) :
    Flushed g g2 := by
  intro p
  rcases h' p with hsame | hempty
  · rw [hsame]
    exact h p
  · exact .inr hempty

theorem Flushed.of_update {q : Place} (h : g'.pipes = Function.update g.pipes q fun _ => {}) :
    Flushed g g' := by
  intro p
  rw [h]
  by_cases hp : p = q
  · rw [hp, Function.update_self]
    exact .inr rfl
  · rw [Function.update_of_ne hp]
    exact .inl rfl

theorem flushed_terminateEps {p : Place} (h : terminateEps d o p g = some g') : Flushed g g' := by
  obtain ⟨-, -, -, -, -, -, hpipes⟩ := terminateEps_some h
  exact .of_update hpipes

theorem flushed_processEps {p : Place} (h : processEps d o p g = some g') : Flushed g g' := by
  obtain ⟨-, -, -, -, -, hpipes⟩ := processEps_some h
  exact .of_update hpipes

theorem flushed_overPlaces {f : Place → Gadget → Option Gadget}
    (hf : ∀ p g g', f p g = some g' → Flushed g g') :
    ∀ {l : List Place} {g g' : Gadget}, overPlaces f l g = some g' → Flushed g g'
  | [], _, _, h => Option.some.inj h ▸ .of_eq rfl
  | p :: rest, g, g', h => by
    obtain ⟨g1, h1, h2⟩ := Option.bind_eq_some_iff.mp h
    exact (hf p g g1 h1).trans (flushed_overPlaces hf h2)

theorem flushed_reset (h : reset d o g = some g') : Flushed g g' := by
  unfold reset at h
  split at h
  · obtain ⟨g1, h1, rfl⟩ := Option.map_eq_some_iff.mp h
    refine (flushed_overPlaces (fun p g g' hp => ?_) h1).trans (.of_eq rfl)
    obtain ⟨g2, h2, rfl⟩ := Option.map_eq_some_iff.mp hp
    exact (flushed_terminateEps h2).trans (.of_eq rfl)
  · exact Option.some.inj h ▸ .of_eq rfl

theorem flushed_setConfiguration {s : CaptureSetup} (h : setConfiguration d o s g = some g') :
    Flushed g g' := by
  unfold setConfiguration at h
  split at h
  · exact Option.some.inj h ▸ .of_eq rfl
  · rename_i c _
    obtain ⟨g2, h2, rfl⟩ := Option.map_eq_some_iff.mp h
    obtain ⟨g1, h1, h2⟩ := Option.bind_eq_some_iff.mp h2
    have hstopped : Flushed g g1 := by
      split at h1
      · exact flushed_overPlaces (fun p g g' hp => flushed_terminateEps hp) h1
      · exact Option.some.inj h1 ▸ .of_eq rfl
    have hstarted : Flushed { g1 with currentConfig := c } g2 := by
      refine flushed_overPlaces (fun p g g' hp => ?_) h2
      have hchosen : Flushed g (g.choose c p.interface 0) := .of_eq rfl
      exact hchosen.trans (flushed_processEps hp)
    have hacked : Flushed g2 ({ g2 with configured := true }.ack o s) :=
      .of_eq (untouched_ack { g2 with configured := true } s).pipes
    exact (hstopped.trans hstarted).trans hacked

theorem flushed_setInterface {s : CaptureSetup} (h : setInterface d o s g = some g') :
    Flushed g g' := by
  unfold setInterface at h
  dsimp only at h
  split at h
  · exact Option.some.inj h ▸ .of_eq rfl
  · rename_i i _
    split at h
    · exact Option.some.inj h ▸ .of_eq rfl
    · rename_i k _
      split at h
      · exact Option.some.inj h ▸ .of_eq (untouched_ack g s).pipes
      · obtain ⟨g2, h2, rfl⟩ := Option.map_eq_some_iff.mp h
        obtain ⟨g1, h1, h2⟩ := Option.bind_eq_some_iff.mp h2
        have hacked : Flushed g2 ((g2.choose g.currentConfig i k).ack o s) :=
          .of_eq (untouched_ack (g2.choose g.currentConfig i k) s).pipes
        exact ((flushed_terminateEps h1).trans (flushed_processEps h2)).trans hacked

theorem flushed_control {s : CaptureSetup} (h : control fuel d o s g = some g') :
    Flushed g g' := by
  have hfetched : Flushed g (g.fetched 2 (some s)) := .of_eq rfl
  refine hfetched.trans ?_
  unfold control at h
  dsimp only at h
  split at h
  · exact Option.some.inj h ▸ .of_eq (untouched_stall _ s).pipes
  · split at h
    · exact .of_eq (untouched_inRequest h).pipes
    · split at h
      · exact flushed_setConfiguration h
      · split at h
        · exact flushed_setInterface h
        · exact .of_eq (untouched_outRequest h).pipes

/-! ### Every run -/

/-- Every pipe is in order, and those of managed endpoints are not used. -/
def Gadget.Forwards (d : Device) (g : Gadget) : Prop :=
  ∀ p alt i e, d.altsetting p = some alt → alt.endpoints[i]? = some e →
    (g.pipes p i).Forwards d e ∧ (alt.manages e = true → g.pipes p i = {})

theorem Gadget.Forwards.flushed (h : g.Forwards d) (hflushed : Flushed g g') : g'.Forwards d := by
  intro p alt i e halt he
  rcases hflushed p with hsame | hempty
  · rw [hsame]
    exact h p alt i e halt he
  · rw [hempty]
    exact ⟨.empty, fun _ => rfl⟩

theorem Gadget.Forwards.setPipe (h : g.Forwards d) {t : Thread} {alt : Altsetting}
    {pipe : Pipe} (hserved : served d g t = some (alt, e)) (hmanages : alt.manages e = false)
    (hpipe : pipe.Forwards d e) : (g.setPipe t pipe).Forwards d := by
  obtain ⟨-, halt, he⟩ := served_some hserved
  intro p alt' i e' halt' he'
  unfold Gadget.setPipe
  dsimp only
  by_cases hp : p = t.place
  · subst hp
    rw [Function.update_self]
    by_cases hi : i = t.endpoint
    · subst hi
      rw [Function.update_self]
      rw [halt] at halt'
      cases halt'
      rw [he] at he'
      cases he'
      exact ⟨hpipe, fun hyes => Bool.noConfusion (hmanages.symm.trans hyes)⟩
    · rw [Function.update_of_ne hi]
      exact h _ alt' i e' halt' he'
  · rw [Function.update_of_ne hp]
    exact h p alt' i e' halt' he'

theorem Gadget.Forwards.step (h : g.Forwards d) {x : Step} (hrun : step fuel d g x = some g') :
    g'.Forwards d := by
  cases step_cases hrun with
  | control hcontrol => exact h.flushed (flushed_control hcontrol)
  | @reset o type _ hreset =>
    have hfetched : Flushed g (g.fetched type none) := .of_eq rfl
    exact h.flushed (hfetched.trans (flushed_reset hreset))
  | pipe hserved hmanages hmove =>
    obtain ⟨-, halt, he⟩ := served_some hserved
    exact h.setPipe hserved hmanages ((h _ _ _ _ halt he).1.step hmove)
  | fetched | same | read | thread | left | server | elapsed => exact h

/-- **Transfers are forwarded once and in order.**  Whatever the host, the device and the threads did,
what came in at an endpoint that the mixer does not manage since it was started is, in this order and
as the endpoint's rules leave it, what its writer was done with, what it is at, what waits in the
queue and what the reader holds.  None is longer than its buffer, at most 32 wait from the device, and
none is sent on an isochronous endpoint to the device. -/
theorem transfers_forwarded (h : Reaches d allowed g) {p : Place} {alt : Altsetting} {i : ℕ}
    (halt : d.altsetting p = some alt) (he : alt.endpoints[i]? = some e) :
    List.Forall₂ (fun data io => io.data.length ≤ 4096 ∧
        ∃ fuel, endpointInjection fuel e.address.toNat (d.rules e)
          { ep := d.epNum e.address.toNat, data } = some io)
      (g.pipes p i).received
      ((g.pipes p i).written.map (·.1) ++ (g.pipes p i).writer.toList ++
        (g.pipes p i).dataQueue ++ (g.pipes p i).reader.toList) ∧
    (e.isIn = true → (g.pipes p i).dataQueue.length ≤ 32) ∧
    (∀ x ∈ (g.pipes p i).written, x.2 = true → e.isIn = true ∨ e.transferType ≠ 1) ∧
    (alt.manages e = true → g.pipes p i = {}) := by
  have hforwards : g.Forwards d := by
    clear halt he
    induction h with
    | start => exact fun _ _ _ _ _ _ => ⟨.empty, fun _ => rfl⟩
    | step _ _ hstep ih => exact ih.step hstep
  obtain ⟨hpipe, hmanaged⟩ := hforwards p alt i e halt he
  refine ⟨?_, hpipe.room, hpipe.written, hmanaged⟩
  have hleaves := hpipe.transfers
  rw [List.forall₂_iff_get] at hleaves ⊢
  refine ⟨hleaves.1, fun j hj hj' => ⟨hpipe.fits _ (List.get_mem _ _), hleaves.2 j hj hj'⟩⟩

/-- A disk behind a rule that writes `B` for `A`. -/
def sampleDisk : Device where
  configs := [{
    configurationValue := 1
    interfaces := [[{
      interfaceNumber := 0
      alternateSetting := 0
      interfaceClass := 8
      interfaceSubClass := 6
      interfaceProtocol := 80
      extra := []
      endpoints := [⟨0x81, 2, 0⟩, ⟨0x02, 2, 0⟩] }]] }]
  injectionEnabled := true
  injectionConfig := { bulk := [{
    epAddress := 2, enable := true, contentPattern := [ascii "A"], replacement := ascii "B" }] }

/-- The host writes an `A`, and the disk gets a `B`. -/
theorem transfers_forwarded_sample : ∃ g : Gadget, Reaches sampleDisk (fun _ _ => True) g ∧
    (g.pipes ⟨0, 0, 0⟩ 1).received = [ascii "A"] ∧
    (g.pipes ⟨0, 0, 0⟩ 1).written = [({ ep := 2, data := ascii "B" }, true)] ∧
    ∃ fuel, endpointInjection fuel 2 sampleDisk.injectionConfig.bulk
      { ep := 2, data := ascii "A" } = some { ep := 2, data := ascii "B" } := by
  obtain ⟨g, hrun, hpipe⟩ := (Option.any_eq_true _ _).mp
    (show (run 3 sampleDisk (start sampleDisk) [.control {} sampleSet,
        .read ⟨⟨0, 0, 0⟩, 1, false⟩ (ascii "A"), .push ⟨⟨0, 0, 0⟩, 1, false⟩,
        .take ⟨⟨0, 0, 0⟩, 1, true⟩, .written ⟨⟨0, 0, 0⟩, 1, true⟩ true]).any
      (fun g => decide (g.pipes ⟨0, 0, 0⟩ 1 = {
        received := [ascii "A"], written := [({ ep := 2, data := ascii "B" }, true)] })) = true by
      decide +kernel)
  have hpipe := of_decide_eq_true hpipe
  have hreaches : Reaches sampleDisk (fun _ _ => True) g := run_reaches .start hrun
  obtain ⟨hforwarded, -⟩ := transfers_forwarded hreaches (p := ⟨0, 0, 0⟩) (i := 1) rfl rfl
  rw [hpipe] at hforwarded
  obtain ⟨-, fuel, hio⟩ := (List.forall₂_cons.mp hforwarded).1
  exact ⟨g, hreaches, by rw [hpipe], by rw [hpipe], fuel, hio⟩

end UsbProxy.Proxy
