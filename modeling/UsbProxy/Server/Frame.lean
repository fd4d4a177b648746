import UsbProxy.Mixer.Threads
import UsbProxy.Server.Steps

/-!
# What the server's functions leave alone

Each equation names the fields a function can change; every other field of the server is as
before.
-/

namespace UsbProxy

/-! ### The accesses to the mixer -/

namespace World

variable (w : World)

theorem after_history (a : EnqueueArgs) :
    ∃ l, (w.after a).history = l ++ w.history ∧ ∀ m ∈ l, ∃ item, m = .enqueued item := by
  unfold after enqueueReport
  split
  · exact ⟨[], rfl, by simp⟩
  · split
    · exact ⟨[], rfl, by simp⟩
    · dsimp only
      split
      · exact ⟨[_], rfl, by simp⟩
      · exact ⟨[], rfl, by simp⟩

theorem enqueueFinalRelease_history (tracked : ℕ) (key : Key) :
    ∃ l, (w.enqueueFinalRelease tracked key).1.history = l ++ w.history ∧
      ∀ m ∈ l, m = .untracked ∨ ∃ item, m = .enqueued item := by
  obtain ⟨l, hl, hm⟩ := w.after_history
    { kind := .releaseAll, session := key.session, commandId := key.command }
  unfold enqueueFinalRelease
  dsimp only
  split
  · refine ⟨.untracked :: l, congrArg _ hl, fun m hmem => ?_⟩
    rcases List.mem_cons.mp hmem with rfl | hmem
    · exact .inl rfl
    · exact .inr (hm m hmem)
  · exact ⟨l, hl, fun m hmem => .inr (hm m hmem)⟩

theorem cleared_history :
    w.cleared.history = .cleared (w.selectedEndpoint.bind (·.inflightItem)) :: w.history := by
  unfold cleared clearSyntheticState
  dsimp only
  split
  · rfl
  · split <;> rfl

end World

/-! ### The server -/

namespace MoveExecutor

variable {m : MoveExecutor}

@[simp] theorem stop_active (reason : MoveProtocol.Status) (now : ℕ)
    (h : reason.terminal = true) : (m.stop reason now).active = false := by
  unfold stop
  split
  · rename_i hinactive
    simpa using hinactive
  · cases reason <;>
      simp_all [active, setStatus, stage, setFlag, MoveProtocol.Status.terminal]

@[simp] theorem stop_request (reason : MoveProtocol.Status) (now : ℕ) :
    (m.stop reason now).request = m.request := by
  unfold stop
  dsimp only
  split
  · rfl
  · split <;> rfl

@[simp] theorem stop_key (reason : MoveProtocol.Status) (now : ℕ) :
    (m.stop reason now).key = m.key := by
  unfold stop
  dsimp only
  split
  · rfl
  · split <;> rfl

theorem stop_inactive (h : m.active = false) (reason : MoveProtocol.Status) (now : ℕ) :
    m.stop reason now = m := by
  simp [stop, h]

end MoveExecutor

namespace Server

variable (s : Server)

theorem sendCached_eq (c : CachedCommand) (status : ClickProtocol.Status) :
    ∃ sent, s.sendCached c status = { s with sent } := by
  unfold sendCached
  split
  · exact ⟨_, rfl⟩
  · exact ⟨_, rfl⟩

theorem terminal_eq (key : Key) (status : ClickProtocol.Status) :
    ∃ cache sent, s.terminal key status = { s with cache, sent } := by
  unfold terminal
  split
  · exact ⟨s.cache, s.sent, rfl⟩
  · rename_i c _
    obtain ⟨sent, h⟩ := sendCached_eq { s with
      cache := updateCache key (fun _ => { c with status, terminal := true }) s.cache }
      { c with status, terminal := true } status
    exact ⟨_, _, h⟩

theorem syncMove_eq : ∃ cache sent, s.syncMove = { s with cache, sent } := by
  unfold syncMove
  dsimp only
  split
  · exact ⟨s.cache, s.sent, rfl⟩
  · split
    · exact ⟨s.cache, s.sent, rfl⟩
    · split
      · obtain ⟨sent, h⟩ := sendCached_eq { s with cache := _ } _ _
        exact ⟨_, _, h⟩
      · exact ⟨_, s.sent, rfl⟩

theorem finishFront_eq (status : ClickProtocol.Status) :
    ∃ cache sent scheduledButtons,
      s.finishFront status = { s with work := s.work.tail, scheduledButtons, cache, sent } := by
  unfold finishFront
  split
  · rename_i hw
    exact ⟨s.cache, s.sent, s.scheduledButtons, by rw [hw, List.tail_nil, ← hw]⟩
  · rename_i click rest hw
    dsimp only
    split
    · obtain ⟨cache, sent, h⟩ := terminal_eq { s with work := rest, scheduledButtons := 0 } click.key
        status
      exact ⟨cache, sent, 0, by rw [h, hw]; rfl⟩
    · exact ⟨s.cache, s.sent, 0, by rw [hw]; rfl⟩

theorem cancelLoop_eq (work : List ClickWork) :
    ∃ cache sent, cancelLoop work { s with work } = { s with work := [], cache, sent } := by
  induction work generalizing s with
  | nil => exact ⟨s.cache, s.sent, rfl⟩
  | cons click rest ih =>
    simp only [cancelLoop]
    split
    · obtain ⟨cache, sent, h⟩ := terminal_eq { s with work := rest } click.key .cancelled
      obtain ⟨cache', sent', h'⟩ := ih { s with cache, sent }
      exact ⟨cache', sent', by rw [h]; exact h'⟩
    · exact ih s

theorem cancelWork_eq :
    ∃ cache sent, s.cancelWork = { s with work := [], scheduledButtons := 0, cache, sent } := by
  obtain ⟨cache, sent, h⟩ := cancelLoop_eq s s.work
  have hs : cancelLoop s.work s = { s with work := [], cache, sent } := h
  exact ⟨cache, sent, by rw [cancelWork, hs]⟩

theorem replaceRelease_eq (attachRelease : Bool) (key : Key) :
    ∃ cache sent, s.replaceRelease attachRelease key = { s with cache, sent } := by
  unfold replaceRelease
  split
  · exact terminal_eq s _ _
  · exact ⟨s.cache, s.sent, rfl⟩

theorem dropWork_eq (attachRelease : Bool) (key : Key) (now1 now2 : ℕ) :
    ∃ cache sent, s.dropWork attachRelease key now1 now2 =
      { s with
        mover := s.mover.stop .cancelled now1, work := [], persistentButtons := 0
        scheduledButtons := 0, cache, sent } := by
  have hstop : (s.mover.stop .cancelled now1).stop .cancelled now2 =
      s.mover.stop .cancelled now1 :=
    MoveExecutor.stop_inactive (MoveExecutor.stop_active _ _ rfl) _ _
  unfold dropWork
  obtain ⟨c1, s1, h1⟩ := syncMove_eq (s.stopMover .cancelled now1)
  obtain ⟨c2, s2, h2⟩ := replaceRelease_eq
    { s.stopMover .cancelled now1 with cache := c1, sent := s1 } attachRelease key
  rw [h1, h2]
  simp only [stopMover, hstop]
  obtain ⟨c3, s3, h3⟩ := syncMove_eq
    { s with mover := s.mover.stop .cancelled now1, cache := c2, sent := s2 }
  obtain ⟨c4, s4, h4⟩ := cancelWork_eq
    { s with mover := s.mover.stop .cancelled now1, cache := c3, sent := s3 }
  rw [h3, h4]
  exact ⟨c4, s4, rfl⟩

/-- What `begin_reset` leaves. -/
theorem reset_eq (attachRelease : Bool) (key : Key) (now1 now2 generation : ℕ) :
    ∃ cache sent, s.reset attachRelease key now1 now2 generation =
      { s with
        mover := s.mover.stop .cancelled now1, work := [], persistentButtons := 0
        scheduledButtons := 0, trackedGeneration := generation, releaseInflight := false
        releasePending := true, releaseKey := if attachRelease then key else s.releaseKey
        cache, sent } := by
  obtain ⟨cache, sent, h⟩ := dropWork_eq s attachRelease key now1 now2
  exact ⟨cache, sent, by rw [reset, h]; rfl⟩

theorem dropped_eq (now1 now2 generation : ℕ) :
    ∃ cache sent, s.dropped now1 now2 generation =
      { s with
        mover := s.mover.stop .cancelled now1, work := [], persistentButtons := 0
        scheduledButtons := 0, trackedGeneration := generation, releaseInflight := false
        releasePending := true, owned := false, cache, sent } := by
  obtain ⟨cache, sent, h⟩ := reset_eq s false {} now1 now2 generation
  exact ⟨cache, sent, by rw [dropped, h]; rfl⟩

theorem moveEvent_eq (v : WriterEvent) :
    ∃ cache sent, s.moveEvent v = { s with mover := s.mover.event v, cache, sent } := by
  obtain ⟨cache, sent, h⟩ := syncMove_eq { s with mover := s.mover.event v }
  exact ⟨cache, sent, h⟩

theorem completeRelease_eq :
    ∃ cache sent, s.completeRelease =
      { s with
        releaseInflight := false, releasePending := false, releaseKey := {}, cache, sent } := by
  unfold completeRelease
  dsimp only
  split
  · obtain ⟨cache, sent, h⟩ := terminal_eq
      { s with releaseInflight := false, releasePending := false } s.releaseKey .completed
    exact ⟨cache, sent, by rw [h]⟩
  · exact ⟨s.cache, s.sent, rfl⟩

theorem clickEvent_eq (v : WriterEvent) :
    ∃ work scheduledButtons completedTotal cache sent, s.clickEvent v =
      { s with work, scheduledButtons, completedTotal, cache, sent } := by
  have hself : ∃ work scheduledButtons completedTotal cache sent, s =
      { s with work, scheduledButtons, completedTotal, cache, sent } :=
    ⟨s.work, s.scheduledButtons, s.completedTotal, s.cache, s.sent, rfl⟩
  unfold clickEvent
  split
  · exact hself
  · split
    · exact hself
    · split
      · exact ⟨_, s.scheduledButtons, s.completedTotal, s.cache, s.sent, rfl⟩
      · split
        · split
          · obtain ⟨cache, sent, scheduled, h⟩ := finishFront_eq s .buttonActive
            exact ⟨_, scheduled, s.completedTotal, cache, sent, h⟩
          · dsimp only
            split
            · obtain ⟨cache, sent, scheduled, h⟩ := finishFront_eq
                { s.setFront _ with
                  completedTotal := s.completedTotal + 1
                  cache := updateCache _ _ s.cache } .completed
              exact ⟨_, scheduled, _, cache, sent, h⟩
            · exact ⟨_, s.scheduledButtons, _, _, s.sent, rfl⟩
        · exact hself

theorem report_eq (now : ℕ) (t : Telemetry) :
    ∃ subscription previousTelemetry lastTelemetry sent, s.report now t =
      { s with subscription, previousTelemetry, lastTelemetry, sent } := by
  unfold report
  split
  · exact ⟨_, _, _, _, rfl⟩
  · exact ⟨s.subscription, s.previousTelemetry, s.lastTelemetry, s.sent, rfl⟩

theorem subscribe_eq (source : Peer) (data : List Bits.Byte) (now : ℕ) :
    ∃ subscription subscriber lastTelemetry, s.subscribe source data now =
      { s with subscription, subscriber, lastTelemetry } := by
  unfold subscribe
  split
  · exact ⟨s.subscription, s.subscriber, s.lastTelemetry, rfl⟩
  · exact ⟨_, _, _, rfl⟩

theorem controlMarks_mem {r : MoveProtocol.Request} {m : Mark} (h : m ∈ s.controlMarks r) :
    (m = .continued ⟨r.session, r.command⟩ ∧ s.mover.key = ⟨r.session, r.command⟩ ∧
        s.mover.active = true ∧ s.mover.ack.stage = .waiting) ∨
      m = .cancelAsked ⟨r.session, r.command⟩ := by
  unfold controlMarks at h
  split at h
  · split at h
    · rename_i hwaiting
      exact .inl ⟨List.mem_singleton.mp h, hwaiting⟩
    · cases h
  · exact .inr (List.mem_singleton.mp h)
  · cases h

theorem snapshotMarks_mem {peer : Peer} {sequence : BitVec 32} {next : Mask} {now : ℕ} {m : Mark}
    (h : m ∈ s.snapshotMarks peer sequence next now) :
    m = .adopted ∨ m = .accepted next ∨ m = .honoured peer sequence false ∨
      ∃ peer why, m = .replayForgot peer why := by
  simp only [snapshotMarks, List.cons_append, List.nil_append, List.mem_cons, List.mem_append] at h
  rcases h with h | h | h | h | h
  · exact .inl h
  · exact .inr (.inl h)
  · exact .inr (.inr (.inl h))
  · exact .inr (.inr (.inr (UpxReplay.Tracker.acceptMarks_mem h)))
  · exact .inr (.inr (.inr (UpxReplay.Tracker.pruneMarks_mem h)))

theorem controlMove_eq (source : Peer) (r : MoveProtocol.Request) (prior : CachedCommand) :
    ∃ mover, s.controlMove source r prior =
      { s with
        mover, cache := updateCache prior.key (fun c => { c with peer := source }) s.cache } ∧
      (mover = s.mover ∨ mover = s.mover.proceed ∨ mover = s.mover.cancel) := by
  unfold controlMove
  dsimp only
  split
  · exact ⟨s.mover, rfl, .inl rfl⟩
  · split
    · exact ⟨_, rfl, .inr (.inl rfl)⟩
    · exact ⟨_, rfl, .inr (.inr rfl)⟩
    · exact ⟨s.mover, rfl, .inl rfl⟩

theorem startMove_eq (source : Peer) (r : MoveProtocol.Request) (e : EndpointSnapshot)
    (sessions : ClickSessions.Tracker) (t1 t2 t3 : ℕ) :
    ∃ sent, s.startMove source r e sessions t1 t2 t3 =
      { s with
        mover := s.mover.start r e t1
        cache := s.cache ++ [{
          key := r.key, peer := source, movement := true, moveRequest := r
          moveAck := (s.mover.start r e t1).ack }]
        sessions := sessions.accept r.session r.command t2
        owner := source, owned := true, last := t3, trackedGeneration := e.generation, sent } := by
  unfold startMove
  dsimp only
  obtain ⟨sent, h⟩ := sendCached_eq _ _ _
  exact ⟨sent, h⟩

theorem pushClick_eq (source : Peer) (r : ClickProtocol.Request) (e : EndpointSnapshot)
    (c : CachedCommand) (now t1 t2 : ℕ) :
    ∃ sent, s.pushClick source r e c now t1 t2 =
      { s with
        sessions := s.sessions.accept r.session r.command now
        work := s.work ++ [{
          key := r.key, button := r.button, count := r.count, pressUs := r.pressUs
          intervalUs := r.intervalUs, dueNs := t1, version := r.version, binary := true }]
        acceptedTotal := s.acceptedTotal + r.count, owner := source, owned := true, last := t2
        trackedGeneration := e.generation, sent } := by
  unfold pushClick
  dsimp only
  obtain ⟨sent, h⟩ := sendCached_eq _ _ _
  exact ⟨sent, h⟩

theorem recordRelease_eq (source : Peer) (r : ClickProtocol.Request) (c : CachedCommand)
    (now t : ℕ) :
    ∃ sent, s.recordRelease source r c now t =
      { s with
        sessions := s.sessions.accept r.session r.command now, owner := source, owned := true
        last := t, sent } := by
  unfold recordRelease
  dsimp only
  obtain ⟨sent, h⟩ := sendCached_eq _ _ _
  exact ⟨sent, h⟩

/-! ### The trackers -/

/-- The two trackers: what the server remembers of peers and sessions. -/
def memory (s : Server) : UpxReplay.Tracker × ClickSessions.Tracker :=
  (s.movementReplay, s.sessions)

@[simp] theorem mover_memory (mover : MoveExecutor) : { s with mover }.memory = s.memory := rfl

@[simp] theorem send_memory (dest : Peer) (p : Packet) : (s.send dest p).memory = s.memory := rfl

@[simp] theorem renew_memory (source : Peer) (now : ℕ) :
    (s.renew source now).memory = s.memory := rfl

@[simp] theorem dropped_memory (n1 n2 g : ℕ) :
    (s.dropped n1 n2 g).memory = s.memory := by
  obtain ⟨_, _, h⟩ := s.dropped_eq n1 n2 g
  rw [h]
  rfl

@[simp] theorem reset_memory (b : Bool) (k : Key) (n1 n2 g : ℕ) :
    (s.reset b k n1 n2 g).memory = s.memory := by
  obtain ⟨_, _, h⟩ := s.reset_eq b k n1 n2 g
  rw [h]
  rfl

@[simp] theorem syncMove_memory : s.syncMove.memory = s.memory := by
  obtain ⟨_, _, h⟩ := s.syncMove_eq
  rw [h]
  rfl

@[simp] theorem moveEvent_memory (v : WriterEvent) :
    (s.moveEvent v).memory = s.memory := by
  obtain ⟨_, _, h⟩ := s.moveEvent_eq v
  rw [h]
  rfl

@[simp] theorem completeRelease_memory :
    s.completeRelease.memory = s.memory := by
  obtain ⟨_, _, h⟩ := s.completeRelease_eq
  rw [h]
  rfl

@[simp] theorem clickEvent_memory (v : WriterEvent) :
    (s.clickEvent v).memory = s.memory := by
  obtain ⟨_, _, _, _, _, h⟩ := s.clickEvent_eq v
  rw [h]
  rfl

@[simp] theorem finishFront_memory (status : ClickProtocol.Status) :
    (s.finishFront status).memory = s.memory := by
  obtain ⟨_, _, _, h⟩ := s.finishFront_eq status
  rw [h]
  rfl

@[simp] theorem report_memory (now : ℕ) (t : Telemetry) :
    (s.report now t).memory = s.memory := by
  obtain ⟨_, _, _, _, h⟩ := s.report_eq now t
  rw [h]
  rfl

@[simp] theorem subscribe_memory (source : Peer) (data : List Bits.Byte) (now : ℕ) :
    (s.subscribe source data now).memory = s.memory := by
  obtain ⟨_, _, _, h⟩ := s.subscribe_eq source data now
  rw [h]
  rfl

@[simp] theorem track_memory (e : EndpointSnapshot) :
    (s.track e).memory = s.memory := by
  unfold track
  split <;> rfl

@[simp] theorem sendCached_memory (c : CachedCommand) (status : ClickProtocol.Status) :
    (s.sendCached c status).memory = s.memory := by
  obtain ⟨_, h⟩ := s.sendCached_eq c status
  rw [h]
  rfl

@[simp] theorem controlMove_memory (source : Peer) (r : MoveProtocol.Request)
    (prior : CachedCommand) :
    (s.controlMove source r prior).memory = s.memory := by
  obtain ⟨_, h, _⟩ := s.controlMove_eq source r prior
  rw [h]
  rfl

end Server

end UsbProxy
