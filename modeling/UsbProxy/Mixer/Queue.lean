import UsbProxy.Mixer.Registry

/-!
# The synthetic queue of an endpoint

What each mixer operation does to the queue, the committed masks and the in-flight bookkeeping of
one endpoint.
-/

namespace UsbProxy

open Bits

namespace Endpoint

variable {e : Endpoint} {a : EnqueueArgs} {now : ℕ}

/-- The endpoint after an accepted `enqueue_report`. -/
def pushed (e : Endpoint) (a : EnqueueArgs) (now : ℕ) : Endpoint :=
  updatePending { e with
    synthetic := e.queueFor a ++ [e.itemFor a now]
    superseded := e.superseded + (e.synthetic.length - (e.queueFor a).length)
    nextItem := e.nextItem + 1 }

/-- What `enqueue_report` comes to on a registered endpoint. -/
inductive EnqueueSpec (e : Endpoint) (a : EnqueueArgs) (now : ℕ) : Endpoint × EnqueueResult → Prop
  | refused (result : EnqueueResult) (h : result = .notReady ∨ result = .unsupported) :
      EnqueueSpec e a now (e, result)
  | full (h : maxSyntheticItems ≤ (e.queueFor a).length) :
      EnqueueSpec e a now
        ({ e with
            synthetic := e.queueFor a
            superseded := e.superseded + (e.synthetic.length - (e.queueFor a).length) },
          .queueFull)
  | ok (hroom : (e.queueFor a).length < maxSyntheticItems) (hready : e.latest ≠ [])
      (hgeneration : a.expectedGeneration ≠ 0 → e.generation = a.expectedGeneration)
      (hactivity : ∀ n, a.expectedActivity = some n → n = e.activity)
      (hsplit : splitMouseCommand e.profile (EnqueueArgs.full a) ≠ []) :
      EnqueueSpec e a now (e.pushed a now, .ok)

theorem enqueue_spec (e : Endpoint) (a : EnqueueArgs) (now : ℕ) :
    EnqueueSpec e a now (e.enqueue a now) := by
  unfold enqueue
  split
  · exact .refused _ (.inl rfl)
  rename_i hready
  split
  · exact .refused _ (.inl rfl)
  rename_i hguard
  split
  · exact .refused _ (.inr rfl)
  rename_i hsplit
  push Not at hguard
  dsimp only
  split
  · rename_i hfull
    exact .full hfull
  · rename_i hroom
    refine .ok (by omega) (by simpa using hready) hguard.1 ?_ hsplit
    intro n hn
    have := hguard.2
    rw [hn] at this
    simpa using this

/-- Without supersession an `enqueue_report` that fails changes nothing. -/
theorem enqueue_failed (hlatest : a.latest = false) (h : (e.enqueue a now).2 ≠ .ok) :
    (e.enqueue a now).1 = e := by
  have hspec := e.enqueue_spec a now
  generalize e.enqueue a now = r at hspec h
  cases hspec with
  | refused result hresult => rfl
  | full hfull => simp [queueFor, hlatest]
  | ok hroom hready hgeneration hactivity hsplit => exact absurd rfl h

/-! ### The loops over the queue -/

/-- An item `expire_front` drops: without motion, and with no masks to write. -/
def droppable (persistent scheduled : Mask) (now : ℕ) (item : SyntheticItem) : Bool :=
  (item.expire now).remaining.noMotion && !(item.expire now).needsButtons persistent scheduled

/-- `expire_front` drops a prefix of the queue, and the item it stops at is expired. -/
theorem dropExpired_spec (persistent scheduled : Mask) (now : ℕ) (queue : List SyntheticItem) :
    ∃ dropped rest, queue = dropped ++ rest ∧
      (∀ i ∈ dropped, droppable persistent scheduled now i = true) ∧
      ((rest = [] ∧ dropExpired persistent scheduled now queue = []) ∨
        ∃ item tail, rest = item :: tail ∧
          dropExpired persistent scheduled now queue = item.expire now :: tail) := by
  induction queue with
  | nil => exact ⟨[], [], rfl, by simp, .inl ⟨rfl, rfl⟩⟩
  | cons item queue ih =>
    unfold dropExpired
    split
    · rename_i hdrop
      obtain ⟨dropped, rest, hqueue, hall, hrest⟩ := ih
      refine ⟨item :: dropped, rest, by rw [hqueue, List.cons_append], fun i hi => ?_, hrest⟩
      rcases List.mem_cons.mp hi with rfl | hi
      · exact hdrop
      · exact hall i hi
    · exact ⟨[], item :: queue, rfl, by simp, .inr ⟨item, queue, rfl, rfl⟩⟩

/-- `remove_finished_front` drops a prefix of finished items. -/
theorem dropFinished_spec (queue : List SyntheticItem) :
    ∃ dropped, queue = dropped ++ dropFinished queue ∧ ∀ i ∈ dropped, i.finished = true := by
  induction queue with
  | nil => exact ⟨[], rfl, by simp⟩
  | cons item queue ih =>
    unfold dropFinished
    split
    · rename_i hfinished
      obtain ⟨dropped, hqueue, hall⟩ := ih
      refine ⟨item :: dropped, by rw [List.cons_append, ← hqueue], fun i hi => ?_⟩
      rcases List.mem_cons.mp hi with rfl | hi
      · exact hfinished
      · exact hall i hi
    · exact ⟨[], rfl, by simp⟩

/-- Supersession drops a suffix of the queue. -/
theorem queueFor_prefix (e : Endpoint) (a : EnqueueArgs) : e.queueFor a <+: e.synthetic := by
  unfold queueFor
  split
  · exact List.rdropWhile_prefix _ _
  · exact List.prefix_refl _

/-- With a queue of at most eight items an `enqueue_report` that fails changes nothing: if supersession
drops an item there is room. -/
theorem enqueue_refused (hroom : e.synthetic.length ≤ maxSyntheticItems)
    (h : (e.enqueue a now).2 ≠ .ok) : (e.enqueue a now).1 = e := by
  have hspec := e.enqueue_spec a now
  generalize e.enqueue a now = r at hspec h
  cases hspec with
  | refused => rfl
  | ok => exact absurd rfl h
  | full hfull =>
    have hinitial := queueFor_prefix e a
    have hsame : e.queueFor a = e.synthetic :=
      hinitial.eq_of_length (le_antisymm hinitial.length_le (hroom.trans hfull))
    simp [hsame]

/-! ### Taking a report -/

/-- A physical report as the writer pops it. -/
def popped (io : Io) : Io := { io with mouseManaged := true, mousePhysical := true }

/-- The report a standalone item goes out on, before it is described. -/
def standaloneIo (e : Endpoint) (item : SyntheticItem) (applied : MouseCommand) : Io :=
  let base := if e.submittedTemplate.isEmpty then e.latest else e.submittedTemplate
  let final := e.submittedPhysicalButtons ||| item.persistent ||| item.scheduled
  { ep := e.info.epNum
    data := e.profile.putButtons (e.profile.encode applied (e.profile.zeroRelative base)).1 final
    mouseFinalButtons := final }

/-- What `take_mouse_report` comes to on an endpoint `e` whose front has been expired. -/
inductive TakeSpec (e : Endpoint) : List Io → Endpoint × List Io × Option Taken → Prop
  | nothing (queue : List Io) : TakeSpec e queue (e, queue, none)
  | raw (io : Io) (rest : List Io) (hlayout : e.compatible io = false) :
      TakeSpec e (io :: rest) (e, rest, some ⟨popped io, none⟩)
  | plain (io : Io) (rest : List Io) (hlayout : e.compatible io = true) :
      TakeSpec e (io :: rest)
        (e, rest, some ⟨e.overlay (popped io) {} e.persistentButtons e.scheduledButtons,
          some (e.persistentButtons, e.scheduledButtons)⟩)
  | fused (io : Io) (rest : List Io) (item : SyntheticItem) (tail : List SyntheticItem)
      (applied : MouseCommand) (hlayout : e.compatible io = true)
      (hqueue : e.synthetic = item :: tail)
      (happlied : (e.fuses item io = true ∧ applied = e.fusionMotion item) ∨
        (e.fuses item io = false ∧ e.buttonsOnly item io = true ∧ applied = {})) :
      TakeSpec e (io :: rest)
        (e.markInflight item, rest,
          some ⟨e.overlay (e.describe item (popped io) applied false false) applied
            item.persistent item.scheduled, some (item.persistent, item.scheduled)⟩)
  | standalone (queue : List Io) (item : SyntheticItem) (tail : List SyntheticItem)
      (applied : MouseCommand) (parts : List MouseCommand) (competing : Bool)
      (hqueue : e.synthetic = item :: tail)
      (hparts : splitMouseCommand e.profile
        { item.remaining with buttons := item.persistent ||| item.scheduled } = applied :: parts) :
      TakeSpec e queue
        (e.markInflight item, queue,
          some ⟨e.describe item (e.standaloneIo item applied) applied true competing,
            some (item.persistent, item.scheduled)⟩)

theorem eligible_some {item : SyntheticItem} (h : e.eligible = some item) :
    ∃ tail, e.synthetic = item :: tail := by
  unfold eligible at h
  split at h
  · cases h
  · rename_i front tail hqueue
    split_ifs at h
    cases h
    exact ⟨tail, hqueue⟩

theorem takePhysical_spec (e : Endpoint) (io : Io) (rest : List Io) :
    TakeSpec e (io :: rest) ((e.takePhysical io).1, rest, some (e.takePhysical io).2) := by
  unfold takePhysical
  dsimp only
  split
  · rename_i item hitem
    rw [Option.filter_eq_some_iff] at hitem
    obtain ⟨heligible, huse⟩ := hitem
    obtain ⟨tail, hqueue⟩ := eligible_some heligible
    have hlayout : e.compatible io = true := by
      rcases Bool.or_eq_true_iff.mp huse with h | h
      · exact (Bool.and_eq_true_iff.mp h).1
      · exact (Bool.and_eq_true_iff.mp h).1
    refine .fused io rest item tail _ hlayout hqueue ?_
    by_cases hfuses : e.fuses item io = true
    · exact .inl ⟨hfuses, if_pos hfuses⟩
    · refine .inr ⟨by simpa using hfuses, ?_, if_neg hfuses⟩
      rcases Bool.or_eq_true_iff.mp huse with h | h
      · exact absurd h hfuses
      · exact h
  · split
    · rename_i hlayout
      exact .plain io rest hlayout
    · rename_i hlayout
      exact .raw io rest ((Bool.not_eq_true _).mp hlayout)

theorem takeStandalone_spec {item : SyntheticItem} {tail : List SyntheticItem}
    (competing : Bool) (queue : List Io) (hqueue : e.synthetic = item :: tail) :
    match e.takeStandalone item competing with
    | none => TakeSpec e queue (e, queue, none)
    | some (e', taken) => TakeSpec e queue (e', queue, some taken) := by
  cases h : e.takeStandalone item competing with
  | none => exact .nothing queue
  | some r =>
    unfold takeStandalone at h
    dsimp only at h
    generalize hbase : (if e.submittedTemplate.isEmpty then e.latest else e.submittedTemplate) =
      base at h
    split at h
    · cases h
    · split at h
      · cases h
      · rename_i applied parts hparts
        cases h
        have hspec := TakeSpec.standalone (e := e) queue item tail applied parts competing hqueue
          hparts
        rw [standaloneIo, hbase] at hspec
        exact hspec

/-- While a report is out nothing is taken. -/
theorem take_inflight (queue : List Io) (h : e.inflight = true) :
    e.take now queue = (e, queue, none) := by
  simp [take, h]

theorem take_spec (now : ℕ) (queue : List Io) (h : e.inflight = false) :
    TakeSpec (e.expireFront now) queue (e.take now queue) := by
  unfold take
  rw [if_neg (by simp [h])]
  dsimp only
  split
  · exact .nothing []
  · rename_i item heligible
    obtain ⟨tail, hqueue⟩ := eligible_some heligible
    have hspec := takeStandalone_spec false [] hqueue
    cases hstandalone : (e.expireFront now).takeStandalone item false with
    | none => exact .nothing []
    | some r =>
      rw [hstandalone] at hspec
      exact hspec
  · exact takePhysical_spec ..
  · rename_i io rest item heligible
    obtain ⟨tail, hqueue⟩ := eligible_some heligible
    split
    · have hspec := takeStandalone_spec true (io :: rest) hqueue
      cases hstandalone : (e.expireFront now).takeStandalone item true with
      | none => exact .nothing _
      | some r =>
        rw [hstandalone] at hspec
        exact hspec
    · exact takePhysical_spec ..

/-! ### The outcome of a write -/

/-- The masks of the last successful write. -/
def masks (e : Endpoint) : Mask × Mask := (e.persistentButtons, e.scheduledButtons)

/-- What `notify_mouse_report_written` does to the queue, the masks and the report in flight. -/
inductive NotifySpec (e : Endpoint) (io : Io) (now : ℕ) :
    Bool → Endpoint × Option WriterEvent → Prop
  | foreign (success : Bool) (h : io.mouseManaged = false ∨ io.mouseEndpointInstance ≠ e.inst) :
      NotifySpec e io now success (e, none)
  | kept (success : Bool) (h : (e.notePhysical io success).commits io = false) :
      NotifySpec e io now success
        (e.notePhysical io success,
          if io.mouseGeneration == e.generation then eventFor io now success false else none)
  | failed (h : (e.notePhysical io false).commits io = true) :
      NotifySpec e io now false
        (updatePending { e.notePhysical io false with inflight := false, inflightId := 0 },
          eventFor io now false false)
  | written (item : SyntheticItem) (rest : List SyntheticItem) (hqueue : e.synthetic = item :: rest)
      (h : (e.notePhysical io true).commits io = true) :
      NotifySpec e io now true
        (updatePending { e.notePhysical io true with
            synthetic := dropFinished (writtenItem item io :: rest)
            inflight := false, inflightId := 0
            persistentButtons :=
              if io.syntheticApplyButtons then io.persistentButtons else e.persistentButtons
            scheduledButtons :=
              if io.syntheticApplyButtons then io.scheduledButtons else e.scheduledButtons },
          eventFor io now true (writtenItem item io).finished)

/-- The physical accounting leaves the synthetic side alone. -/
theorem notePhysical_eq (e : Endpoint) (io : Io) (success : Bool) :
    ∃ writerFailures physicalSuccessesSinceStandalone physicalSubmitted submittedPhysicalButtons
      submittedTemplate,
      e.notePhysical io success =
        { e with
          writerFailures, physicalSuccessesSinceStandalone, physicalSubmitted
          submittedPhysicalButtons, submittedTemplate } := by
  unfold notePhysical
  dsimp only
  split_ifs <;> exact ⟨_, _, _, _, _, rfl⟩

theorem commits_generation {io : Io} (h : e.commits io = true) :
    io.mouseGeneration = e.generation := by
  simp only [commits, Bool.and_eq_true, beq_iff_eq] at h
  exact h.1.1.1.1

theorem notify_spec (e : Endpoint) (io : Io) (now : ℕ) (success : Bool) :
    NotifySpec e io now success (e.notify io now success) := by
  unfold notify
  split
  · rename_i h
    exact .foreign success (by simpa using h)
  obtain ⟨f1, f2, f3, f4, f5, hphysical⟩ := notePhysical_eq e io success
  by_cases hcommits : (e.notePhysical io success).commits io = true
  · have hgeneration : io.mouseGeneration = e.generation := by
      have := commits_generation hcommits
      rwa [hphysical] at this
    cases hqueue : e.synthetic with
    | nil => simp [hphysical, commits, hqueue] at hcommits
    | cons item rest =>
      have hqueue' : (e.notePhysical io success).synthetic = item :: rest := by
        rw [hphysical]
        exact hqueue
      cases success with
      | false =>
        have hspec : NotifySpec e io now false _ := .failed hcommits
        simp only [noteSynthetic, hqueue', hcommits, hgeneration, if_true, beq_self_eq_true,
          Bool.false_eq_true, if_false]
        simp only [hqueue'] at hspec
        exact hspec
      | true =>
        have hspec : NotifySpec e io now true _ := .written item rest hqueue hcommits
        simp only [noteSynthetic, hqueue', hcommits, hgeneration, if_true, beq_self_eq_true]
        split
        · rename_i happly
          simpa only [happly, if_true, removeFinishedFront] using hspec
        · rename_i happly
          have h1 : e.persistentButtons = (e.notePhysical io true).persistentButtons := by
            rw [hphysical]
          have h2 : e.scheduledButtons = (e.notePhysical io true).scheduledButtons := by
            rw [hphysical]
          simp only [happly, h1, h2] at hspec
          exact hspec
  · have hnone : (e.notePhysical io success).noteSynthetic io success =
        (e.notePhysical io success, false) := by
      unfold noteSynthetic
      split
      · rfl
      · rw [if_neg hcommits]
    rw [hnone]
    exact .kept success ((Bool.not_eq_true _).mp hcommits)

/-! ### Physical reports -/

/-- A report of a registered endpoint as it is queued. -/
def stamped (e : Endpoint) (now : ℕ) (io : Io) : Io :=
  { io with
    mouseManaged := true, mousePhysical := true, physicalQueuedNs := now
    mouseGeneration := e.generation, mouseEndpointInstance := e.inst }

/-- A queued report that the layout `m` matches. -/
def matched (e : Endpoint) (m : MouseProfile) (now : ℕ) (io : Io) : Io :=
  { e.stamped now io with
    mousePhysicalMatch := true, physicalButtons := m.buttonMask io.data
    physicalX := m.x.get io.data, physicalY := m.y.get io.data
    physicalWheel := m.wheel.get io.data, physicalPan := m.pan.get io.data }

theorem matchingProfile_some {profiles : List MouseProfile} {data : List Byte} {m : MouseProfile}
    (h : e.matchingProfile profiles data = some m) :
    m ∈ profiles ∧ m.accepts data = true ∧ (e.latest ≠ [] → m.id = e.profile.id) := by
  have hfound := List.find?_some h
  simp only [Bool.and_eq_true, Bool.or_eq_true, List.isEmpty_iff, beq_iff_eq] at hfound
  exact ⟨List.mem_of_find?_eq_some h, hfound.1, hfound.2.resolve_left⟩

/-- What `queue_physical_mouse_report` comes to on a registered endpoint. -/
inductive PhysicalSpec (e : Endpoint) (profiles : List MouseProfile) (now : ℕ) (io : Io) :
    Endpoint × Io → Prop
  | unmatched (h : e.matchingProfile profiles io.data = none) :
      PhysicalSpec e profiles now io
        ({ e with physicalBarrier := e.physicalBarrier + 1 }, e.stamped now io)
  | matched (m : MouseProfile) (h : e.matchingProfile profiles io.data = some m)
      (physicalButtons : Mask) (activity lastMotionNs physicalReceived : ℕ)
      (physicalDx physicalDy cumulativeX cumulativeY : ℤ) :
      PhysicalSpec e profiles now io
        ({ e with
            physicalBarrier := e.physicalBarrier + 1
            profile := if e.latest.isEmpty then m else e.profile
            latest := io.data, activity, physicalButtons, physicalDx, physicalDy, cumulativeX
            cumulativeY, lastMotionNs, physicalReceived },
          e.matched m now io)

theorem queuePhysical_spec (e : Endpoint) (profiles : List MouseProfile) (now : ℕ) (io : Io) :
    PhysicalSpec e profiles now io (e.queuePhysical profiles now io) := by
  unfold queuePhysical
  dsimp only
  split
  · rename_i h
    exact .unmatched h
  · rename_i m h
    exact PhysicalSpec.matched (e := e) m h _ _ _ _ _ _ _ _

end Endpoint

end UsbProxy
