import UsbProxy.Mixer.Moves

/-!
# The mixer without a mouse

Where no reader queues physical reports, nothing physical ever shows: no button, no motion, no
activity.  Every report is then a standalone one, with the masks of its item and no others.
-/

namespace UsbProxy

/-- The step hands a physical report on. -/
def MixerStep.isPhysical : MixerStep → Bool
  | .thread (.physical ..) | .thread (.push _) => true
  | _ => false

/-- The endpoint has seen nothing physical. -/
structure Endpoint.Untouched (e : Endpoint) : Prop where
  buttons : e.physicalButtons = 0
  submitted : e.submittedPhysicalButtons = 0
  moved : e.physicalDx = 0 ∧ e.physicalDy = 0 ∧ e.cumulativeX = 0 ∧ e.cumulativeY = 0
  counted : e.physicalReceived = 0 ∧ e.physicalSubmitted = 0 ∧ e.lastMotionNs = 0
  activity : e.activity = 0
  barrier : e.physicalBarrier = 0
  successes : e.physicalSuccessesSinceStandalone = 0

/-- The report is a synthetic one, with the masks of its item and no others. -/
structure Taken.Synthetic (taken : Taken) : Prop where
  physical : taken.io.mousePhysical = false
  standalone : taken.io.mouseStandalone = true
  buttons : taken.io.mouseFinalButtons = taken.io.persistentButtons ||| taken.io.scheduledButtons

namespace Endpoint

variable {e e' : Endpoint}

theorem Untouched.congr (h : e.Untouched) (h1 : e'.physicalButtons = e.physicalButtons)
    (h2 : e'.submittedPhysicalButtons = e.submittedPhysicalButtons)
    (h3 : (e'.physicalDx, e'.physicalDy, e'.cumulativeX, e'.cumulativeY) =
      (e.physicalDx, e.physicalDy, e.cumulativeX, e.cumulativeY))
    (h4 : (e'.physicalReceived, e'.physicalSubmitted, e'.lastMotionNs) =
      (e.physicalReceived, e.physicalSubmitted, e.lastMotionNs))
    (h5 : e'.activity = e.activity) (h6 : e'.physicalBarrier = e.physicalBarrier)
    (h7 : e'.physicalSuccessesSinceStandalone = e.physicalSuccessesSinceStandalone) :
    e'.Untouched := by
  simp only [Prod.mk.injEq] at h3 h4
  obtain ⟨hx, hy, hcx, hcy⟩ := h.moved
  obtain ⟨hr, hs, hl⟩ := h.counted
  exact ⟨by rw [h1, h.buttons], by rw [h2, h.submitted],
    ⟨by rw [h3.1, hx], by rw [h3.2.1, hy], by rw [h3.2.2.1, hcx], by rw [h3.2.2.2, hcy]⟩,
    ⟨by rw [h4.1, hr], by rw [h4.2.1, hs], by rw [h4.2.2, hl]⟩, by rw [h5, h.activity],
    by rw [h6, h.barrier], by rw [h7, h.successes]⟩

theorem Untouched.seed {profiles : List MouseProfile} {data : List Bits.Byte} (h : e.Untouched)
    (hseed : e.seed profiles data = some e') : e'.Untouched := by
  obtain ⟨m, -, rfl⟩ := Option.map_eq_some_iff.mp hseed
  exact ⟨rfl, rfl, h.moved, h.counted, h.activity, h.barrier, h.successes⟩

theorem Untouched.enqueue (h : e.Untouched) (a : EnqueueArgs) (now : ℕ) :
    (e.enqueue a now).1.Untouched := by
  unfold Endpoint.enqueue
  split
  · exact h
  · split
    · exact h
    · split
      · exact h
      · dsimp only
        split
        · exact h.congr rfl rfl rfl rfl rfl rfl rfl
        · exact h.congr rfl rfl rfl rfl rfl rfl rfl

/-- A writer without a physical report takes a standalone one or nothing. -/
theorem Untouched.take (h : e.Untouched) (now : ℕ) :
    (e.take now []).1.Untouched ∧ (e.take now []).2.1 = [] ∧
      ∀ taken, (e.take now []).2.2 = some taken → taken.Synthetic := by
  by_cases hflight : e.inflight = true
  · rw [take_inflight [] hflight]
    exact ⟨h, rfl, by simp⟩
  · rw [Bool.not_eq_true] at hflight
    have hspec := take_spec now [] hflight
    have hfresh : (e.expireFront now).Untouched := h.congr rfl rfl rfl rfl rfl rfl rfl
    generalize e.take now [] = r at hspec ⊢
    generalize hqueue : ([] : List Io) = queue at hspec
    cases hspec with
    | nothing => exact ⟨hfresh, rfl, by simp⟩
    | raw | plain | fused => cases hqueue
    | standalone _ item tail applied parts competing hfront hparts =>
      refine ⟨hfresh.congr rfl rfl rfl rfl rfl rfl rfl, rfl, fun taken htaken => ?_⟩
      have htaken := Option.some.inj htaken
      subst htaken
      refine ⟨rfl, rfl, ?_⟩
      show (e.expireFront now).submittedPhysicalButtons ||| item.persistent ||| item.scheduled =
        item.persistent ||| item.scheduled
      rw [hfresh.submitted]
      simp

/-- A synthetic write changes nothing physical. -/
theorem Untouched.notify (h : e.Untouched) {io : Io} (hio : io.mousePhysical = false) (now : ℕ)
    (success : Bool) : (e.notify io now success).1.Untouched := by
  have hphysical : (e.notePhysical io success).Untouched := by
    unfold notePhysical
    rw [hio]
    dsimp only
    rw [Bool.and_false, if_neg Bool.false_ne_true]
    have hfirst : (if (!success && io.mouseGeneration == e.generation) = true then
        { e with writerFailures := e.writerFailures + 1 } else e).Untouched := by
      split
      · exact h.congr rfl rfl rfl rfl rfl rfl rfl
      · exact h
    split
    · exact { hfirst with successes := rfl }
    · exact hfirst
  unfold Endpoint.notify
  split
  · exact h
  · dsimp only
    unfold noteSynthetic
    split
    · exact hphysical
    · split
      · split
        · dsimp only
          split
          all_goals exact hphysical.congr rfl rfl rfl rfl rfl rfl rfl
        · exact hphysical.congr rfl rfl rfl rfl rfl rfl rfl
      · exact hphysical

end Endpoint

namespace World

/-- Nothing physical is or was in the mixer. -/
structure Detached (w : World) : Prop where
  ports : ∀ a, (w.ports a).dataQueue = [] ∧ (w.ports a).reader = none
  writer : ∀ a taken, (w.ports a).writer = some taken → taken.Synthetic
  endpoints : ∀ a e, w.endpoints a = some e → e.Untouched

variable {w : World}

theorem Detached.start : Detached ({} : World) := ⟨by simp, by simp, by simp⟩

/-- **A step that hands on nothing physical leaves the mixer detached.** -/
theorem Detached.mix (h : w.Detached) {x : MixerStep} (hx : x.isPhysical = false) :
    (w.mix x).Detached := by
  have hports (a : ℕ) : ((w.mix x).ports a).dataQueue = [] ∧ ((w.mix x).ports a).reader = none ∧
      ∀ taken, ((w.mix x).ports a).writer = some taken → taken.Synthetic := by
    obtain ⟨hqueue, hreader⟩ := h.ports a
    have hport := w.mix_ports x a
    generalize (w.mix x).ports a = p at hport ⊢
    cases hport with
    | same => exact ⟨hqueue, hreader, h.writer a⟩
    | read | pushed => cases hx
    | taken e he hnone =>
      obtain ⟨-, hnil, hsynthetic⟩ := (h.endpoints a e he).take w.clock
      rw [hqueue]
      exact ⟨hnil, hreader, hsynthetic⟩
    | written => exact ⟨hqueue, hreader, by simp⟩
  refine ⟨fun a => ⟨(hports a).1, (hports a).2.1⟩, fun a => (hports a).2.2, fun a e' he' => ?_⟩
  rcases (w.mix_moves x).endpoints a e' he' with ⟨e, he, hmove⟩ | ⟨-, hstart⟩
  · have hu := h.endpoints a e he
    cases hmove with
    | same => exact hu
    | seeded data _ _ hseed => exact hu.seed hseed
    | queued => cases hx
    | taken =>
      rw [(h.ports a).1]
      exact (hu.take w.clock).1
    | written taken success _ hwriter =>
      exact hu.notify (h.writer a taken hwriter).physical w.clock success
    | enqueued args => exact hu.enqueue args w.clock
    | cleared => exact hu.congr rfl rfl rfl rfl rfl rfl rfl
  · cases hstart with
    | invalidated e generation he =>
      exact (h.endpoints a e he).congr rfl rfl rfl rfl rfl rfl rfl
    | registered => exact ⟨rfl, rfl, ⟨rfl, rfl, rfl, rfl⟩, ⟨rfl, rfl, rfl⟩, rfl, rfl, rfl⟩

/-- A detached mixer tells the server of no physical input. -/
theorem Detached.snapshot (h : w.Detached) :
    w.endpointSnapshot.physical = 0 ∧ w.endpointSnapshot.activity = 0 ∧
      w.endpointSnapshot.physicalReceived = 0 ∧ w.endpointSnapshot.physicalDx = 0 ∧
      w.endpointSnapshot.physicalDy = 0 ∧ w.endpointSnapshot.cumulativeX = 0 ∧
      w.endpointSnapshot.cumulativeY = 0 ∧ w.endpointSnapshot.outputQueue = 0 := by
  unfold endpointSnapshot
  dsimp only
  split
  · simp
  · rename_i a _
    split
    · simp
    · rename_i e he
      have hu := h.endpoints a e he
      obtain ⟨hx, hy, hcx, hcy⟩ := hu.moved
      split
      · simp
      · rw [hu.buttons, hu.activity, hu.counted.1, hx, hy, hcx, hcy, (h.ports a).1]
        simp [saturate32, saturate16]

end World

end UsbProxy
