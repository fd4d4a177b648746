import UsbProxy.Replay.Runs

/-!
# The reports of the replayed device

What the host sees of the mouse endpoints: GET_REPORT and the repetitions at the idle rate are
still, and every other report is one of the server's.
-/

namespace UsbProxy.Replay

open Bits

variable {d : Device} {g : Gadget}

theorem getReport_mem {s : CaptureSetup} {data : List Byte} (h : getReport g s = some data) :
    ∃ e ∈ g.endpoints, e.mouse = true ∧ e.spec.interfaceNumber = s.index.toNat ∧
      e.profile.id = s.value.toNat % 2 ^ 8 ∧ data = e.last := by
  obtain ⟨e, he, rfl⟩ := Option.map_eq_some_iff.mp h
  have hmem := List.mem_of_getLast? he
  rw [List.mem_filter] at hmem
  obtain ⟨hmem, hcond⟩ := hmem
  simp only [Bool.and_eq_true, beq_iff_eq] at hcond
  exact ⟨e, hmem, hcond.1.2, hcond.1.1, hcond.2, rfl⟩

/-- What a GET_REPORT request comes to. -/
theorem answer_getReport {wrote : ℕ → Bool} {s : CaptureSetup} (htype : s.type = 0xa1#8)
    (hrequest : s.request = 1#8) :
    answer d g wrote s =
      if g.configuration ≠ 0 ∧ known d s = true ∧ s.value.toNat / 2 ^ 8 = 1 then
        (getReport g s).map (g, ·)
      else none := by
  unfold answer classRequest
  rw [htype, hrequest]
  by_cases hup : g.configuration ≠ 0 ∧ known d s = true
  · simp [hup]
  · have hno : ¬(g.configuration ≠ 0 ∧ known d s = true ∧ s.value.toNat / 2 ^ 8 = 1) :=
      fun h => hup ⟨h.1, h.2.1⟩
    rw [if_neg hno]
    simp [hup]

theorem control_getReport {wrote : ℕ → Bool} {s : CaptureSetup} (htype : s.type = 0xa1#8)
    (hrequest : s.request = 1#8) {data : List Byte}
    (h : (control d g wrote s).2 = .write data) :
    (control d g wrote s).1 = g ∧
      ∃ report, getReport g s = some report ∧ data = report.take s.length.toNat := by
  unfold control at h ⊢
  split
  · rename_i hlong
    rw [if_pos hlong] at h
    cases h
  · rename_i hshort
    rw [if_neg hshort, answer_getReport htype hrequest] at h
    rw [answer_getReport htype hrequest]
    by_cases hup : g.configuration ≠ 0 ∧ known d s = true ∧ s.value.toNat / 2 ^ 8 = 1
    · rw [if_pos hup] at h ⊢
      cases hreport : getReport g s with
      | none =>
        rw [hreport] at h
        cases h
      | some report =>
        rw [hreport] at h
        have hin : s.type.getLsbD 7 = true := by
          rw [htype]
          decide
        simp only [Option.map_some, if_pos hin, Response.write.injEq] at h
        exact ⟨rfl, report, rfl, h.symm⟩
    · rw [if_neg hup] at h
      cases h

/-- **What the replayer repeats does not move the pointer.**  In every state it can reach,
GET_REPORT changes nothing and answers with the last report of a mouse endpoint of the interface
and report ID, cut to the length asked for, with every relative field zero; so is every report a
writer repeats at the idle rate. -/
theorem repeated_still (h : g.Reachable d) :
    (∀ wrote s data, s.type = 0xa1#8 → s.request = 1#8 → (control d g wrote s).2 = .write data →
      (control d g wrote s).1 = g ∧
        ∃ e ∈ g.endpoints, e.mouse = true ∧ e.spec.interfaceNumber = s.index.toNat ∧
          e.profile.id = s.value.toNat % 2 ^ 8 ∧ data = e.last.take s.length.toNat ∧
          ∀ f ∈ e.profile.relative, f.get data = 0) ∧
      ∀ e ∈ g.endpoints, ∀ data, e.timed = some data →
        ∀ f ∈ e.profile.relative, f.get data = 0 := by
  have hgood := h.inv.good
  refine ⟨fun wrote s data htype hrequest hdata => ?_, fun e he data hdata f hf => ?_⟩
  · obtain ⟨hsame, report, hreport, rfl⟩ := control_getReport htype hrequest hdata
    obtain ⟨e, he, hmouse, hnumber, hid, rfl⟩ := getReport_mem hreport
    have hstill := (hgood e he).last.take s.length.toNat
    exact ⟨hsame, e, he, hmouse, hnumber, hid, rfl, fun f hf => hstill.get hf⟩
  · exact ((hgood e he).timed data hdata).get hf

/-- The sample's mouse is configured and given an idle rate, the server queues a motion with a held
button, and the writer takes the report. -/
def sampleSteps : List Step :=
  [.control ⟨0, 9, 1, 0, 0⟩ fun _ => true, .control ⟨0x21, 10, 0x400, 0, 0⟩ fun _ => true,
    .server (.enqueue { command := { x := 5, y := -1 }, persistent := 1 }), .take 0x81]

def sampleTaken (d : Device) : Gadget := run d {} sampleSteps

/-- The report is written, and the writer waits until it repeats it. -/
def sampleRepeated (d : Device) : Gadget :=
  run d {} (sampleSteps ++ [.written 0x81 3, .wait 0x81, .again 0x81])

/-- GET_REPORT of the sample's mouse, for three bytes. -/
def sampleAsk : CaptureSetup := ⟨0xa1, 1, 0x100, 0, 3⟩

theorem sample_repeated :
    ((ReplayProfile.load ReplayProfile.sampleJson
      ((captureFile ReplayProfile.sampleCalls).map ReplayProfile.sampleJson.write)).any fun p =>
        ((sampleTaken ⟨p, id⟩).world.ports 0x81).writer.map (·.io.data) == some [1, 5, 255] &&
          (sampleRepeated ⟨p, id⟩).endpoints.map (·.timed) == [some [1, 0, 0]] &&
          (control ⟨p, id⟩ (sampleRepeated ⟨p, id⟩) (fun _ => true) sampleAsk).2 ==
            .write [1, 0, 0]) = true := by decide +kernel

theorem repeated_still_sample : ∃ d : Device, ∃ e ∈ (sampleRepeated d).endpoints,
    ((sampleTaken d).world.ports 0x81).writer.map (·.io.data) = some [1, 5, 255] ∧
      e.timed = some [1, 0, 0] ∧ (∀ f ∈ e.profile.relative, f.get [1, 0, 0] = 0) ∧
      ∃ e ∈ (sampleRepeated d).endpoints, e.mouse = true ∧ e.last.take 3 = [1, 0, 0] ∧
        ∀ f ∈ e.profile.relative, f.get [1, 0, 0] = 0 := by
  obtain ⟨p, -, hsample⟩ := (Option.any_eq_true _ _).mp sample_repeated
  simp only [Bool.and_eq_true, beq_iff_eq] at hsample
  obtain ⟨⟨hdata, htimed⟩, hasked⟩ := hsample
  obtain ⟨hanswer, hrepeat⟩ :=
    repeated_still (d := ⟨p, id⟩) (g := sampleRepeated ⟨p, id⟩) ⟨_, rfl⟩
  obtain ⟨-, e', he', hmouse, -, -, hlast, hstill⟩ := hanswer _ sampleAsk _ rfl rfl hasked
  obtain ⟨e, he, hetimed⟩ : ∃ e ∈ (sampleRepeated ⟨p, id⟩).endpoints,
      e.timed = some [1, 0, 0] := by
    rw [← List.mem_map, htimed]
    exact List.mem_singleton_self _
  exact ⟨⟨p, id⟩, e, he, hdata, hetimed, hrepeat e he _ hetimed, e', he', hmouse, hlast.symm,
    hstill⟩

/-- **Every report the replayer takes from the mixer is the server's.**  Nothing physical reaches
the mixer, so a report that a writer holds is a standalone one with the masks of its item and no
others, no report waits in a queue, and the server is told of no physical input: no button, no
motion, no activity. -/
theorem reports_synthetic (h : g.Reachable d) :
    (∀ a taken, (g.world.ports a).writer = some taken →
      taken.io.mousePhysical = false ∧ taken.io.mouseStandalone = true ∧
        taken.io.mouseFinalButtons = taken.io.persistentButtons ||| taken.io.scheduledButtons) ∧
      (∀ a, (g.world.ports a).dataQueue = []) ∧
      g.world.endpointSnapshot.physical = 0 ∧ g.world.endpointSnapshot.activity = 0 ∧
      g.world.endpointSnapshot.physicalReceived = 0 ∧
      g.world.endpointSnapshot.physicalDx = 0 ∧ g.world.endpointSnapshot.physicalDy = 0 ∧
      g.world.endpointSnapshot.cumulativeX = 0 ∧ g.world.endpointSnapshot.cumulativeY = 0 := by
  have hdetached := h.lasting World.lasting_detached .start
  obtain ⟨hphysical, hactivity, hreceived, hdx, hdy, hx, hy, -⟩ := hdetached.snapshot
  refine ⟨fun a taken htaken => ?_, fun a => (hdetached.ports a).1, hphysical, hactivity, hreceived,
    hdx, hdy, hx, hy⟩
  have hsynthetic := hdetached.writer a taken htaken
  exact ⟨hsynthetic.physical, hsynthetic.standalone, hsynthetic.buttons⟩

theorem reports_synthetic_sample : ∃ d : Device, ∃ taken,
    ((sampleTaken d).world.ports 0x81).writer = some taken ∧ taken.io.data = [1, 5, 255] ∧
      taken.io.mousePhysical = false ∧ (sampleTaken d).world.endpointSnapshot.physicalDx = 0 := by
  obtain ⟨p, -, hsample⟩ := (Option.any_eq_true _ _).mp sample_repeated
  simp only [Bool.and_eq_true, beq_iff_eq] at hsample
  obtain ⟨taken, htaken, hdata⟩ := Option.map_eq_some_iff.mp hsample.1.1
  obtain ⟨hwriter, -, -, -, -, hdx, -⟩ :=
    reports_synthetic (d := ⟨p, id⟩) (g := sampleTaken ⟨p, id⟩) ⟨_, rfl⟩
  exact ⟨⟨p, id⟩, taken, htaken, hdata, (hwriter _ taken htaken).1, hdx⟩

end UsbProxy.Replay
