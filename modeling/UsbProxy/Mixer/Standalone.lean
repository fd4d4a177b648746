import UsbProxy.Mixer.Cadence
import UsbProxy.Mixer.Intact

/-!
# What a standalone report says

A standalone report is made of a template of the layout.  Read with the layout it says just the motion
that is booked for it, so what the ledger adds up is what the host is told.
-/

namespace UsbProxy

open Bits

namespace MouseProfile

variable {m : MouseProfile} {c : MouseCommand} {q : List Byte}

/-- The motion of a report. -/
def motion (m : MouseProfile) (data : List Byte) : Motion :=
  (m.x.get data, m.y.get data, m.wheel.get data, m.pan.get data)

/-- A command encoded in a template, with other buttons, reads back as its motion. -/
theorem Wf.motion_encode (hm : m.Wf) (hc : m.Carries c) (hq : q.length = m.size) (final : Mask) :
    m.motion (m.putButtons (m.encode c q).1 final) = c.motion := by
  have hlength : (writes (m.relative.map fun f => (f, 0)) q).length = m.size := by
    rw [writes_length, hq]
  have hbuttons : ∀ w ∈ m.buttonWrites final, w.1 ∈ m.buttons.map (·.2) := by
    intro w hw
    obtain ⟨b, hb, rfl⟩ := List.mem_map.mp hw
    exact List.mem_map_of_mem hb
  obtain ⟨hx, hy, hwheel, hpan⟩ := hm.get_axes hc hlength c.buttons hbuttons
  rw [encode_writes hc, putButtons_writes, ← writes_append, encodeWrites, List.append_assoc,
    List.append_assoc, writes_append]
  unfold motion MouseCommand.motion
  rw [hx, hy, hwheel, hpan]

end MouseProfile

namespace Endpoint

variable {e e' : Endpoint} {now : ℕ} {queue : List Io}

/-- The template and what the writer holds fit the layout, and a standalone report says what is
booked for it. -/
structure Honest (e : Endpoint) (writer : Option Taken) : Prop where
  template : e.submittedTemplate ≠ [] → e.latest ≠ [] ∧ e.submittedTemplate.length = e.profile.size
  matched : ∀ taken, writer = some taken → e.compatible taken.io = true →
    e.latest ≠ [] ∧ taken.io.data.length = e.profile.size
  standalone : ∀ taken, writer = some taken → taken.io.mouseStandalone = true →
    taken.io.mouseGeneration = e.generation →
      e.latest ≠ [] ∧ e.profile.motion taken.io.data = taken.io.motion

theorem Honest.kept {writer : Option Taken} (h : e.Honest writer) (hkept : e.Kept e')
    (htemplate : e'.submittedTemplate ≠ [] →
      e'.latest ≠ [] ∧ e'.submittedTemplate.length = e'.profile.size) : e'.Honest writer := by
  refine ⟨htemplate, fun taken hwriter hcompatible => ?_,
    fun taken hwriter hstandalone hgeneration => ?_⟩
  · rw [compatible, hkept.generation] at hcompatible
    obtain ⟨hlatest, hlength⟩ := h.matched taken hwriter hcompatible
    obtain ⟨hlatest', hprofile⟩ := hkept.layout hlatest
    exact ⟨hlatest', hprofile ▸ hlength⟩
  · rw [hkept.generation] at hgeneration
    obtain ⟨hlatest, hmotion⟩ := h.standalone taken hwriter hstandalone hgeneration
    obtain ⟨hlatest', hprofile⟩ := hkept.layout hlatest
    exact ⟨hlatest', hprofile ▸ hmotion⟩

/-- The template stays, as does the layout. -/
theorem Honest.keepTemplate {writer : Option Taken} (h : e.Honest writer) (hkept : e.Kept e')
    (htemplate : e'.submittedTemplate = e.submittedTemplate) : e'.Honest writer := by
  refine h.kept hkept fun hne => ?_
  rw [htemplate] at hne ⊢
  obtain ⟨hlatest, hlength⟩ := h.template hne
  obtain ⟨hlatest', hprofile⟩ := hkept.layout hlatest
  exact ⟨hlatest', hprofile ▸ hlength⟩

theorem Honest.forget {writer : Option Taken} (h : e.Honest writer) : e.Honest none :=
  ⟨h.template, by simp, by simp⟩

/-- The report that `standaloneIo` makes reads back as the motion of the part. -/
theorem motion_standaloneIo {writer : Option Taken} (h : e.Honest writer) (hm : e.profile.Wf)
    (hlatest : e.latest.length = e.profile.size) {item : SyntheticItem} {applied : MouseCommand}
    (hcarries : e.profile.Carries applied) :
    e.profile.motion (e.standaloneIo item applied).data = applied.motion := by
  refine hm.motion_encode hcarries ?_ _
  rw [MouseProfile.zeroRelative_length]
  by_cases hempty : e.submittedTemplate = []
  · simp [hempty, hlatest]
  · rw [if_neg (by simpa using hempty)]
    exact (h.template hempty).2

/-- **What the writer takes.** -/
theorem Honest.taken {r : Endpoint × List Io × Option Taken} (h : e.Honest none)
    (hm : e.synthetic ≠ [] → e.profile.Wf) (hlatest : e.synthetic ≠ [] → e.latest ≠ [])
    (htemplate : e.latest ≠ [] → e.latest.length = e.profile.size)
    (hqueue : ∀ io ∈ queue, io.Plain ∧ (e.compatible io = true → io.ReadBy e))
    (hspec : TakeSpec e queue r) : e.Honest r.2.2 := by
  cases hspec with
  | nothing => exact h
  | raw io rest hlayout =>
    refine ⟨h.template, fun taken htaken hcompatible => ?_, fun taken htaken hstandalone => ?_⟩
    · cases htaken
      have hsame : e.compatible (popped io) = e.compatible io := rfl
      rw [hsame, hlayout] at hcompatible
      cases hcompatible
    · cases htaken
      have hplain := (hqueue io List.mem_cons_self).1.1
      exact absurd hstandalone (by simp [popped, hplain])
  | plain io rest hlayout =>
    obtain ⟨hplain, hread⟩ := hqueue io List.mem_cons_self
    refine ⟨h.template, fun taken htaken _ => ?_, fun taken htaken hstandalone => ?_⟩
    · cases htaken
      refine ⟨(hread hlayout).layout, ?_⟩
      rw [← (hread hlayout).size]
      simp [overlay, applyKnownFields, popped]
    · cases htaken
      exact absurd hstandalone (by simp [overlay, popped, hplain.1])
  | fused io rest item tail applied hlayout hfront =>
    obtain ⟨-, hread⟩ := hqueue io List.mem_cons_self
    refine ⟨h.template, fun taken htaken _ => ?_, fun taken htaken hstandalone => ?_⟩
    · cases htaken
      refine ⟨(hread hlayout).layout, ?_⟩
      rw [← (hread hlayout).size]
      simp [overlay, applyKnownFields, describe, popped]
    · cases htaken
      exact absurd hstandalone (by simp [overlay, describe])
  | standalone _ item tail applied parts competing hfront hparts =>
    have hne : e.synthetic ≠ [] := by
      rw [hfront]
      exact List.cons_ne_nil _ _
    refine ⟨h.template, fun taken htaken hcompatible => ?_, fun taken htaken _ _ => ?_⟩
    · cases htaken
      exact absurd hcompatible (by simp [compatible, describe, standaloneIo])
    · cases htaken
      refine ⟨hlatest hne, ?_⟩
      have hsome := ((MouseProfile.splitMouseCommand_spec (hm hne)
        { item.remaining with buttons := item.persistent ||| item.scheduled }).2
          (by rw [hparts]; exact List.cons_ne_nil _ _)).1
      rw [hparts] at hsome
      exact motion_standaloneIo h (hm hne) (htemplate (hlatest hne))
        (hsome.carried _ List.mem_cons_self)

theorem Honest.take (h : e.Honest none) (hm : e.synthetic ≠ [] → e.profile.Wf)
    (hlatest : e.synthetic ≠ [] → e.latest ≠ [])
    (htemplate : e.latest ≠ [] → e.latest.length = e.profile.size)
    (hqueue : ∀ io ∈ queue, io.Plain ∧ (e.compatible io = true → io.ReadBy e)) :
    e.Honest (e.take now queue).2.2 := by
  cases hin : e.inflight with
  | true =>
    rw [take_inflight queue hin]
    exact h
  | false =>
    -- expiry leaves the layout and the template alone
    have hexpired : (e.expireFront now).synthetic ≠ [] → e.synthetic ≠ [] := by
      intro hne hnil
      refine hne ?_
      show dropExpired _ _ now e.synthetic = []
      rw [hnil, dropExpired]
    have hkept : e.Kept (e.expireFront now) := .of_eq rfl rfl rfl rfl
    have hback : (e.expireFront now).Kept e := .of_eq rfl rfl rfl rfl
    have htaken := (h.keepTemplate hkept rfl).taken (fun hne => hm (hexpired hne))
      (fun hne => hlatest (hexpired hne)) htemplate
      (fun io hio => ⟨(hqueue io hio).1, fun hcompatible =>
        ((hqueue io hio).2 hcompatible).kept hkept⟩) (e.take_spec now queue hin)
    exact htaken.keepTemplate hback rfl

/-- The template after the accounting of a write. -/
theorem notePhysical_template (e : Endpoint) (io : Io) (success : Bool) :
    (e.notePhysical io success).submittedTemplate =
      if success && io.mousePhysical && e.compatible io then
        applyKnownFields e.profile io.data io.physicalX io.physicalY io.physicalWheel
          io.physicalPan io.physicalButtons
      else e.submittedTemplate := by
  unfold notePhysical compatible
  dsimp only
  rcases success with _ | _
  · simp only [Bool.false_and, Bool.false_eq_true, if_false]
    split <;> rfl
  · simp only [Bool.not_true, Bool.false_and, Bool.true_and, Bool.false_eq_true, if_false]
    by_cases hphysical : io.mousePhysical = true
    · by_cases hmatch : io.mousePhysicalMatch = true
      · simp only [hphysical, hmatch, Bool.true_and, if_true]
        split <;> rfl
      · simp only [hphysical, hmatch]
        split <;> simp
    · simp only [hphysical]
      split <;> simp

theorem Honest.notify {taken : Taken} (h : e.Honest (some taken)) (success : Bool) :
    (e.notify taken.io now success).1.Honest none := by
  have hkept := Endpoint.Kept.notify e taken.io now success
  -- the template is kept, or made of the report
  have htemplate : (e.notify taken.io now success).1.submittedTemplate = e.submittedTemplate ∨
      (e.notify taken.io now success).1.submittedTemplate =
        (e.notePhysical taken.io success).submittedTemplate := by
    have hspec := e.notify_spec taken.io now success
    generalize e.notify taken.io now success = r at hspec
    cases hspec with
    | foreign => exact .inl rfl
    | kept | failed | written => exact .inr rfl
  rw [notePhysical_template] at htemplate
  by_cases hnew : (success && taken.io.mousePhysical && e.compatible taken.io) = true
  · rw [if_pos hnew] at htemplate
    obtain ⟨-, hcompatible⟩ := Bool.and_eq_true_iff.mp hnew
    obtain ⟨hlatest, hsize⟩ := h.matched taken rfl hcompatible
    obtain ⟨hlatest', hprofile⟩ := hkept.layout hlatest
    refine h.forget.kept hkept fun hne => ⟨hlatest', ?_⟩
    rcases htemplate with hsame | hmade
    · rw [hsame] at hne ⊢
      rw [hprofile]
      exact (h.template hne).2
    · rw [hmade, hprofile, ← hsize]
      simp [applyKnownFields]
  · rw [if_neg hnew, or_self] at htemplate
    exact h.forget.keepTemplate hkept htemplate

theorem Honest.seed {writer : Option Taken} {profiles : List MouseProfile} {data : List Byte}
    (h : e.Honest writer) (hlayouts : Layouts profiles)
    (hknown : e.latest ≠ [] → e.profile ∈ profiles) (hseed : e.seed profiles data = some e') :
    e'.Honest writer := by
  have hkept := Endpoint.Kept.seed hlayouts hknown hseed
  obtain ⟨m, hmatch, rfl⟩ := Option.map_eq_some_iff.mp hseed
  refine h.kept hkept fun hne => ⟨hne, ?_⟩
  obtain ⟨-, haccepts, -⟩ := matchingProfile_some hmatch
  simp only [MouseProfile.accepts, Bool.and_eq_true, beq_iff_eq] at haccepts
  dsimp only
  rw [MouseProfile.putButtons_length, MouseProfile.zeroRelative_length]
  exact haccepts.1

end Endpoint

namespace World

variable {w : World} {a : ℕ} {e e' : Endpoint} {x : MixerStep}

/-- Every standalone report says what is booked for it. -/
def Honest (w : World) : Prop := ∀ a e, w.endpoints a = some e → e.Honest (w.ports a).writer

theorem EndpointMove.honest (hw : w.Sound) (he : w.endpoints a = some e)
    (h : EndpointMove w a x e e') (hhonest : e.Honest (w.ports a).writer)
    (hx : ∀ success, x ≠ .thread (.written a success)) : e'.Honest (w.ports a).writer := by
  have hkept := h.kept hw he
  cases h with
  | same => exact hhonest
  | seeded data e e' hseed => exact hhonest.seed (hw.layouts _) (hw.known a e he) hseed
  | queued epNum data e =>
    refine hhonest.keepTemplate hkept ?_
    have hspec := e.queuePhysical_spec (w.descriptors e.interfaceNumber) w.clock
      { ep := epNum, data }
    generalize e.queuePhysical (w.descriptors e.interfaceNumber) w.clock { ep := epNum, data } = r
      at hspec
    cases hspec <;> rfl
  | taken e hnone =>
    refine hhonest.keepTemplate hkept ?_
    cases hin : e.inflight with
    | true => rw [Endpoint.take_inflight _ hin]
    | false =>
      have hspec := e.take_spec w.clock (w.ports a).dataQueue hin
      generalize e.take w.clock (w.ports a).dataQueue = r at hspec
      generalize (w.ports a).dataQueue = queue at hspec
      cases hspec <;> rfl
  | written taken success e => exact absurd rfl (hx success)
  | enqueued args e =>
    refine hhonest.keepTemplate hkept ?_
    have hspec := e.enqueue_spec args w.clock
    generalize e.enqueue args w.clock = r at hspec
    cases hspec <;> rfl
  | cleared e => exact hhonest.keepTemplate hkept rfl

/-- An endpoint that starts anew has nothing to say. -/
theorem EndpointStart.honest (h : EndpointStart w a e') {writer : Option Taken}
    (hold : ∀ taken, writer = some taken → taken.io.mouseGeneration ≤ w.nextGeneration) :
    e'.Honest writer := by
  have hnew := h.generation
  have hempty : e'.submittedTemplate = [] := by
    cases h <;> rfl
  refine ⟨fun hne => absurd hempty hne, fun taken hwriter hcompatible => ?_,
    fun taken hwriter _ hgeneration => ?_⟩
  · have hbefore := hold taken hwriter
    simp only [Endpoint.compatible, Bool.and_eq_true, beq_iff_eq] at hcompatible
    omega
  · have hbefore := hold taken hwriter
    omega

/-- **A step leaves every standalone report saying what is booked for it.** -/
theorem Honest.mix (hw : w.Sound) (hfits : w.Fits) (hreadings : w.Readings)
    (hplain : w.PlainPorts) (h : w.Honest) (x : MixerStep) : (w.mix x).Honest := by
  intro a e' he'
  have hport := w.mix_ports x a
  rcases (w.mix_moves x).endpoints a e' he' with ⟨e, he, hmove⟩ | ⟨hlayout, hstart⟩
  · have hhonest := h a e he
    by_cases hwritten : ∃ success, x = .thread (.written a success)
    · obtain ⟨success, rfl⟩ := hwritten
      have hnone : ((w.mix (.thread (.written a success))).ports a).writer = none := by
        generalize (w.mix (.thread (.written a success))).ports a = p at hport
        cases hport with
        | same _ hwritten => exact hwritten success rfl
        | written => rfl
      rw [hnone]
      cases hmove with
      | same => exact hhonest.forget
      | written taken _ e hwriter =>
        rw [hwriter] at hhonest
        exact hhonest.notify success
    · have hstays := hmove.honest hw he hhonest fun success hx => hwritten ⟨success, hx⟩
      generalize (w.mix x).ports a = p at hport
      cases hport with
      | same | read | pushed => exact hstays
      | written taken success => exact hstays.forget
      | taken e₀ he₀ hnone =>
        rw [he] at he₀
        cases he₀
        rw [hnone] at hhonest
        have htaken : e.Honest (e.take w.clock (w.ports a).dataQueue).2.2 := by
          refine hhonest.take (hw.profile he) (fun hne hlatest => hne (hw.empty he hlatest).1)
            (hfits a e he).template fun io hio => ?_
          have hwaiting : io ∈ (w.ports a).waiting := List.mem_append_right _ hio
          exact ⟨hplain a io hwaiting, hreadings a e io he hwaiting⟩
        exact htaken.kept (hmove.kept hw he) hstays.template
  · refine hstart.honest fun taken hwriter => ?_
    generalize (w.mix x).ports a = p at hport hwriter
    cases hport with
    | same =>
      refine (hw.site a).stamped taken.io (List.mem_append_right _ ?_)
      rw [hwriter]
      exact List.mem_singleton_self _
    | read | pushed | taken | written => cases hlayout

/-- **A standalone report says what is booked for it.**  In every run, while the layout of its
generation stands, the bytes of the standalone report that a writer holds read back as the motion
that a successful write of it takes from its item. -/
theorem standalone_decodes (steps : List MixerStep) {e : Endpoint} {taken : Taken}
    (he : (({} : World).mixes steps).endpoints a = some e)
    (hwriter : ((({} : World).mixes steps).ports a).writer = some taken)
    (hstandalone : taken.io.mouseStandalone = true)
    (hgeneration : taken.io.mouseGeneration = e.generation) :
    (e.profile.x.get taken.io.data, e.profile.y.get taken.io.data,
      e.profile.wheel.get taken.io.data, e.profile.pan.get taken.io.data) = taken.io.motion := by
  have hrun : ∀ (l : List MixerStep) (u : World), u.Mixed → u.PlainPorts → u.Honest →
      (u.mixes l).Honest := by
    intro l
    induction l with
    | nil => exact fun u _ _ hhonest => hhonest
    | cons x l ih =>
      intro u hu hplain hhonest
      exact ih (u.mix x) (hu.mix x) (hplain.mix x)
        (hhonest.mix hu.sound hu.fits hu.known.1 hplain x)
  have hstart : ({} : World).Honest := fun a e he => by cases he
  have hhonest := hrun steps {} ⟨[], rfl⟩ PlainPorts.start hstart a e he
  rw [hwriter] at hhonest
  exact (hhonest.standalone taken rfl hstandalone hgeneration).2

/-- A mouse gets five counts to the right. -/
theorem standalone_decodes_sample : ∃ (e : Endpoint) (taken : Taken),
    (({} : World).mixes (MixerStep.mouse ++ [.enqueue { command := { x := 5 } },
      .thread (.take 129)])).endpoints 129 = some e ∧
    (e.profile.x.get taken.io.data, e.profile.y.get taken.io.data,
      e.profile.wheel.get taken.io.data, e.profile.pan.get taken.io.data) = (5, 0, 0, 0) := by
  generalize hsteps : MixerStep.mouse ++ [.enqueue { command := { x := 5 } },
    .thread (.take 129)] = steps
  obtain ⟨e, he⟩ : ∃ e, (({} : World).mixes steps).endpoints 129 = some e := by
    rw [← hsteps, ← Option.isSome_iff_exists]
    decide +kernel
  obtain ⟨taken, hwriter⟩ : ∃ taken, ((({} : World).mixes steps).ports 129).writer = some taken := by
    rw [← hsteps, ← Option.isSome_iff_exists]
    decide +kernel
  have hheld : (taken.io.mouseStandalone, taken.io.motion) = (true, 5, 0, 0, 0) := by
    have hsome : ((({} : World).mixes steps).ports 129).writer.map
        (fun taken => (taken.io.mouseStandalone, taken.io.motion)) = some (true, 5, 0, 0, 0) := by
      rw [← hsteps]
      decide +kernel
    rw [hwriter] at hsome
    exact Option.some.inj hsome
  have hgeneration : taken.io.mouseGeneration = e.generation := by
    have hsome : ((({} : World).mixes steps).ports 129).writer.map (·.io.mouseGeneration) =
        ((({} : World).mixes steps).endpoints 129).map (·.generation) := by
      rw [← hsteps]
      decide +kernel
    rw [hwriter, he] at hsome
    exact Option.some.inj hsome
  obtain ⟨hstandalone, hmotion⟩ := Prod.mk.inj hheld
  refine ⟨e, taken, he, ?_⟩
  rw [standalone_decodes steps he hwriter hstandalone hgeneration, hmotion]

end World

end UsbProxy
