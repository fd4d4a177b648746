import UsbProxy.Server.ReleaseAll

/-!
# The loop on its own

What the statements of the loop do while the other threads are at rest and there is nothing to do
but to wait for the final release, and what a click leaves that is accepted then.
-/

namespace UsbProxy

open Bits Client

section Alone

variable {s : Server} {w : World}

/-! ### Statements without work -/

theorem Server.track_eq (s : Server) (e : EndpointSnapshot) :
    ∃ trackedGeneration, s.track e = { s with trackedGeneration } := by
  unfold Server.track
  split
  · exact ⟨_, rfl⟩
  · exact ⟨s.trackedGeneration, rfl⟩

/-- The generation check while the tracked generation is that of the endpoint. -/
theorem step_checkGeneration
    (h : (s.track w.endpointSnapshot).trackedGeneration ≠ 0 →
      w.endpointSnapshot.generation = (s.track w.endpointSnapshot).trackedGeneration) :
    Config.step ⟨.top, s, w⟩ (.server [] none) =
      ⟨.events, s.track w.endpointSnapshot, w.note .checked⟩ := by
  have hpost : Post Srv.checkGeneration
      (fun _ c => c = ⟨s.track w.endpointSnapshot, w.note .checked, []⟩) ⟨s, w, []⟩ := by
    refine Post.bind <| Srv.post_snapshot <| Post.seq <| Srv.post_mark <| Post.seq <|
      Srv.post_modify <| Post.bind <| Srv.post_get <| Post.ite (fun hdiff => ?_) fun _ => rfl
    exact absurd (h hdiff.1) hdiff.2
  unfold Config.step
  dsimp only [Stage.statement]
  rw [show _ = _ from hpost]
  rfl

theorem step_events (h : w.writerEvents = []) :
    Config.step ⟨.events, s, w⟩ (.server [] none) = ⟨.overflow, s, w⟩ := by
  cases w
  cases h
  rfl

theorem step_overflow (h : w.writerOverflow = false) :
    Config.step ⟨.overflow, s, w⟩ (.server [] none) = ⟨.lease, s, w⟩ := by
  cases w
  cases h
  rfl

theorem step_lease (h : w.clock - s.last ≤ 250000000) :
    Config.step ⟨.lease, s, w⟩ (.server [] none) = ⟨.move, s, w⟩ := by
  have hpost : Post Srv.checkLease (fun _ c => c = ⟨s, w, []⟩) ⟨s, w, []⟩ :=
    Post.bind <| Srv.post_now <| Post.bind <| Srv.post_get <| Post.ite
      (fun hlate => absurd hlate.2 (Nat.not_lt.mpr h)) fun _ => rfl
  unfold Config.step
  dsimp only [Stage.statement]
  rw [show _ = _ from hpost]
  rfl

theorem step_move (h : s.mover = {}) :
    Config.step ⟨.move, s, w⟩ (.server [] none) = ⟨.schedule, s, w⟩ := by
  cases s
  cases h
  rfl

theorem step_telemetry (h : s.subscription = {}) :
    Config.step ⟨.telemetry, s, w⟩ (.server [] none) = ⟨.receive, s, w⟩ := by
  cases s
  cases h
  rfl

/-- While a release is owed no click is served. -/
theorem serveFront_waits {t : ℕ} (h : s.releasePending = true) :
    Post (Srv.serveFront t) (fun _ c => c = ⟨s, w, []⟩) ⟨s, w, []⟩ := by
  refine Post.bind <| Srv.post_get ?_
  dsimp only
  split
  · exact Post.pure rfl
  · exact Post.ite (fun _ => Post.pure rfl) fun hn => absurd h hn

theorem step_schedule (h : s.releasePending = true) (hinflight : s.releaseInflight = true) :
    Config.step ⟨.schedule, s, w⟩ (.server [] none) = ⟨.telemetry, s, w⟩ := by
  have hpost : Post Srv.schedulerTick (fun _ c => c = ⟨s, w, []⟩) ⟨s, w, []⟩ := by
    rw [Srv.schedulerTick_eq]
    refine Post.bind <| Srv.post_now <| Post.seq <| Post.bind <| Srv.post_get <| Post.ite
      (fun howed => ?_) fun _ => Post.pure (serveFront_waits h)
    simp [hinflight] at howed
  unfold Config.step
  dsimp only [Stage.statement]
  rw [show _ = _ from hpost]
  rfl

theorem step_schedule_release (h : s.releasePending = true) (hidle : s.releaseInflight = false) :
    Config.step ⟨.schedule, s, w⟩ (.server [] none) =
      ⟨.telemetry, { s with
        releaseInflight := (w.enqueueFinalRelease s.trackedGeneration s.releaseKey).2 = .ok },
        (w.enqueueFinalRelease s.trackedGeneration s.releaseKey).1⟩ := by
  have hpost : Post Srv.schedulerTick (fun _ c => c = ⟨{ s with
        releaseInflight := (w.enqueueFinalRelease s.trackedGeneration s.releaseKey).2 = .ok },
        (w.enqueueFinalRelease s.trackedGeneration s.releaseKey).1, []⟩) ⟨s, w, []⟩ := by
    rw [Srv.schedulerTick_eq]
    refine Post.bind <| Srv.post_now <| Post.seq <| Post.bind <| Srv.post_get <| Post.ite
      (fun _ => Post.bind <| Post.call <| Post.ite (fun hres => ?_) fun hres => ?_) fun hn => ?_
    · refine Srv.post_modify ?_
      have hres : (w.enqueueFinalRelease s.trackedGeneration s.releaseKey).2 = .ok := hres
      rw [hres]
      exact serveFront_waits h
    · have hres : (w.enqueueFinalRelease s.trackedGeneration s.releaseKey).2 ≠ .ok := hres
      have hsame : { s with releaseInflight :=
          ((w.enqueueFinalRelease s.trackedGeneration s.releaseKey).2 = .ok : Bool) } = s := by
        rw [decide_eq_false hres, ← hidle]
      rw [hsame]
      exact Post.pure (serveFront_waits h)
    · simp [h, hidle] at hn
  unfold Config.step
  dsimp only [Stage.statement]
  rw [show _ = _ from hpost]
  rfl

theorem run_cons (c : Config) (a : Action) (l : List Action) : c.run (a :: l) = (c.step a).run l :=
  rfl

theorem run_append (c : Config) (l l' : List Action) : c.run (l ++ l') = (c.run l).run l' :=
  List.foldl_append

theorem run_iteration (c : Config) (input : Option Datagram) :
    c.run (Action.iteration input) =
      (c.run (List.replicate 7 (.server [] none))).step (.server [] input) :=
  run_append ..

/-- Nothing to do but to wait for the final release. -/
structure Server.Waits (s : Server) (w : World) : Prop where
  mover : s.mover = {}
  subscription : s.subscription = {}
  owes : s.releasePending = true
  events : w.writerEvents = []
  overflow : w.writerOverflow = false
  lease : w.clock - s.last ≤ 250000000
  tracks : (s.track w.endpointSnapshot).trackedGeneration ≠ 0 →
    w.endpointSnapshot.generation = (s.track w.endpointSnapshot).trackedGeneration

namespace Server.Waits

/-- The statements before the scheduler. -/
theorem run_five (h : s.Waits w) :
    Config.run ⟨.top, s, w⟩ (List.replicate 5 (.server [] none)) =
      ⟨.schedule, s.track w.endpointSnapshot, w.note .checked⟩ := by
  obtain ⟨generation, htrack⟩ := s.track_eq w.endpointSnapshot
  unfold Config.run
  simp only [List.replicate, List.foldl]
  rw [step_checkGeneration h.tracks, step_events (w := w.note .checked) h.events,
    step_overflow (w := w.note .checked) h.overflow, step_lease, step_move]
  · rw [htrack]
    exact h.mover
  · rw [htrack]
    exact h.lease

/-- An iteration while the release is on its way. -/
theorem run_inflight (h : s.Waits w) (hinflight : s.releaseInflight = true) :
    Config.run ⟨.top, s, w⟩ (List.replicate 7 (.server [] none)) =
      ⟨.receive, s.track w.endpointSnapshot, w.note .checked⟩ := by
  obtain ⟨generation, htrack⟩ := s.track_eq w.endpointSnapshot
  have hseven : List.replicate 7 (Action.server [] none) =
      List.replicate 5 (.server [] none) ++ [.server [] none, .server [] none] := rfl
  have hfive := h.run_five
  unfold Config.run at hfive ⊢
  rw [hseven, List.foldl_append, hfive]
  simp only [List.foldl]
  rw [step_schedule, step_telemetry]
  all_goals rw [htrack]
  · exact h.subscription
  · exact h.owes
  · exact hinflight

/-- An iteration that tries to enqueue the release. -/
theorem run_release (h : s.Waits w) (hinflight : s.releaseInflight = false) :
    Config.run ⟨.top, s, w⟩ (List.replicate 7 (.server [] none)) =
      ⟨.receive, { s.track w.endpointSnapshot with
        releaseInflight := ((w.note .checked).enqueueFinalRelease
          (s.track w.endpointSnapshot).trackedGeneration s.releaseKey).2 = .ok },
        ((w.note .checked).enqueueFinalRelease
          (s.track w.endpointSnapshot).trackedGeneration s.releaseKey).1⟩ := by
  obtain ⟨generation, htrack⟩ := s.track_eq w.endpointSnapshot
  have hseven : List.replicate 7 (Action.server [] none) =
      List.replicate 5 (.server [] none) ++ [.server [] none, .server [] none] := rfl
  have hfive := h.run_five
  unfold Config.run at hfive ⊢
  rw [hseven, List.foldl_append, hfive]
  simp only [List.foldl]
  rw [step_schedule_release, step_telemetry]
  all_goals rw [htrack]
  · exact h.subscription
  · exact h.owes
  · exact hinflight

end Server.Waits

/-! ### Accepted clicks -/

theorem World.notes_notes (l l' : List Mark) : (w.notes l).notes l' = w.notes (l' ++ l) := by
  simp [World.notes]

theorem alone_now {Q : ℕ → Ctx Server World EnvStep → Prop} (h : Q w.clock ⟨s, w, []⟩) :
    Post Srv.now Q ⟨s, w, []⟩ := h

theorem alone_modify {f : Server → Server} {Q : Unit → Ctx Server World EnvStep → Prop}
    (h : Q () ⟨f s, w, []⟩) : Post (Srv.modify f) Q ⟨s, w, []⟩ := h

theorem alone_mark {l : List Mark} {Q : Unit → Ctx Server World EnvStep → Prop}
    (h : Q () ⟨s, w.notes l, []⟩) : Post (Srv.mark l) Q ⟨s, w, []⟩ := h

theorem alone_beginReset {attachRelease : Bool} {key : Key}
    {Q : Unit → Ctx Server World EnvStep → Prop}
    (h : Q () ⟨s.reset attachRelease key w.clock w.clock w.clearGeneration, w.cleared, []⟩) :
    Post (Srv.beginReset attachRelease key) Q ⟨s, w, []⟩ := h

section Click

variable {d : Datagram} {r : ClickProtocol.Request}

/-- The datagram gets as far as the dispatch. -/
def Server.Hears (s : Server) (d : Datagram) : Prop :=
  d.data.length ≠ 0 ∧ d.data.length ≤ 1024 ∧ s.peerFilter.any (· != d.source.address) = false

/-- What `handleClick` checks of every new command. -/
structure Server.Takes (s : Server) (w : World) (d : Datagram)
    (r : ClickProtocol.Request) : Prop where
  heard : s.Hears d
  parses : ClickProtocol.parse d.data = some r
  owner : s.owned = true → s.owner = d.source
  fresh : findCache s.cache r.key = none
  current : (s.sessions.prune w.clock).isStale r.session r.command = false
  room : s.cache.length < maxCacheRecords

variable {Q : Unit → Ctx Server World EnvStep → Prop}

theorem receive_click (h : s.Takes w d r) (hpost : Post (Srv.handleClick d) Q ⟨s, w, []⟩) :
    Post (Srv.receive (some d)) Q ⟨s, w, []⟩ := by
  refine Post.bind <| Srv.post_get <| Post.ite (fun hsize => ?_) fun _ =>
    Post.ite (fun hpeer => ?_) fun _ => ?_
  · rcases hsize with hempty | hlong
    · exact absurd hempty h.heard.1
    · exact absurd h.heard.2.1 (Nat.not_le.mpr hlong)
  · rw [h.heard.2.2] at hpeer
    cases hpeer
  · rw [(handle_click h.parses).2]
    exact hpost

/-- A new Schedule that is not refused. -/
theorem receive_schedule (h : s.Takes w d r) (hop : r.operation = .schedule)
    (hverdict : s.scheduleVerdict w.endpointSnapshot r = none)
    (hpost : Post (Srv.scheduleClick d r w.endpointSnapshot w.clock) Q
      ⟨s.pruneSessions w.clock, (w.notes (s.sessions.pruneMarks w.clock)).notes [.sampled], []⟩) :
    Post (Srv.receive (some d)) Q ⟨s, w, []⟩ := by
  refine receive_click h ?_
  unfold Srv.handleClick
  rw [h.parses]
  refine Post.bind <| Srv.post_get <| Post.ite
    (fun hother => absurd (h.owner hother.1) hother.2) fun _ => ?_
  have hfresh : findCache s.cache ⟨r.session, r.command⟩ = none := h.fresh
  rw [hfresh]
  refine Post.bind <| Srv.post_now <| Post.seq <| Srv.post_mark <| Post.seq <| Srv.post_modify <|
    Post.ite (fun hold => absurd hold ?_) fun _ => Post.bind <| Srv.post_snapshot <| Post.seq <|
      Srv.post_mark ?_
  · exact (Bool.not_eq_true _).mpr h.current
  · rw [hop]
    have hverdict' : s.scheduleVerdict (w.notes
        (s.sessions.pruneMarks w.clock)).endpointSnapshot r = none := hverdict
    exact hverdict' ▸ hpost

theorem receive_releaseAll (h : s.Takes w d r) (hop : r.operation = .releaseAll)
    (hpost : Post (Srv.releaseAll d r w.clock) Q
      ⟨s.pruneSessions w.clock, (w.notes (s.sessions.pruneMarks w.clock)).notes [.sampled], []⟩) :
    Post (Srv.receive (some d)) Q ⟨s, w, []⟩ := by
  refine receive_click h ?_
  unfold Srv.handleClick
  rw [h.parses]
  refine Post.bind <| Srv.post_get <| Post.ite
    (fun hother => absurd (h.owner hother.1) hother.2) fun _ => ?_
  have hfresh : findCache s.cache ⟨r.session, r.command⟩ = none := h.fresh
  rw [hfresh]
  refine Post.bind <| Srv.post_now <| Post.seq <| Srv.post_mark <| Post.seq <| Srv.post_modify <|
    Post.ite (fun hold => absurd hold ?_) fun _ => Post.bind <| Srv.post_snapshot <| Post.seq <|
      Srv.post_mark ?_
  · exact (Bool.not_eq_true _).mpr h.current
  · rw [hop]
    exact hpost

theorem Server.admitted_pruned (now accepted : ℕ) (t : ClickSessions.Tracker) (source : Peer) :
    (s.pruneSessions now).admitted r source accepted t = s.admitted r source accepted t := rfl

/-- What an accepted Schedule leaves. -/
theorem step_pushClick (h : s.Takes w d r) (hop : r.operation = .schedule)
    (hverdict : s.scheduleVerdict w.endpointSnapshot r = none) {t : ClickSessions.Tracker}
    {forgot : List Mark} (hadmitted : (s.sessions.prune w.clock).admitPruned r.session w.clock false
      s.sessionProtected = some (t, forgot)) :
    ∃ l sent, Config.step ⟨.receive, s, w⟩ (.server [] (some d)) = ⟨.top, { s with
      sessions := t.accept r.session r.command w.clock
      cache := s.cache ++ [Server.clickRecord r d.source r.count]
      work := s.work ++ [{
        key := r.key, button := r.button, count := r.count, pressUs := r.pressUs
        intervalUs := r.intervalUs, dueNs := w.clock, version := r.version, binary := true }]
      acceptedTotal := s.acceptedTotal + r.count, owner := d.source, owned := true
      last := w.clock, trackedGeneration := w.endpointSnapshot.generation, sent }, w.notes l⟩ := by
  have hpost : Post (Srv.receive (some d)) (fun _ c => c.priv =
      (s.admitted r d.source r.count t).pushClick d.source r w.endpointSnapshot
        (Server.clickRecord r d.source r.count) w.clock w.clock w.clock ∧
      ∃ l, c.shared = w.notes l) ⟨s, w, []⟩ := by
    have hroom : (s.pruneSessions w.clock).cache.length < maxCacheRecords := h.room
    refine receive_schedule h hop hverdict <| Post.bind <| Srv.post_get <| Post.seq <|
      alone_mark <| Post.seq <| alone_modify ?_
    dsimp only
    rw [removeOldCache_room hroom]
    refine Post.ite (fun hfull => absurd hroom (Nat.not_lt.mpr hfull)) fun _ => Post.seq <|
      alone_mark <| Post.seq <| alone_modify ?_
    have hadmitted' : ((s.pruneSessions w.clock).sessions.prune w.clock).admitPruned r.session w.clock
        false (s.pruneSessions w.clock).sessionProtected = some (t, forgot) := by
      rw [← hadmitted, ← ClickSessions.Tracker.prune_idem s.sessions w.clock]
      rfl
    rw [hadmitted']
    dsimp only
    rw [acceptRecord_room t r d.source r.count hroom, Server.admitted_pruned]
    refine Post.bind <| alone_now <| Post.bind <| alone_now <| Post.seq <| alone_mark <|
      alone_modify ⟨rfl, ?_⟩
    simp only [World.notes_notes]
    exact ⟨_, rfl⟩
  obtain ⟨hpriv, l, hshared⟩ := hpost
  obtain ⟨sent, hpush⟩ := (s.admitted r d.source r.count t).pushClick_eq d.source r
    w.endpointSnapshot (Server.clickRecord r d.source r.count) w.clock w.clock w.clock
  refine ⟨l, sent, ?_⟩
  unfold Config.step
  dsimp only [Stage.statement]
  rw [hpriv, hshared, hpush]
  rfl

/-- What an accepted ReleaseAll leaves. -/
theorem step_releaseAll (h : s.Takes w d r) (hop : r.operation = .releaseAll)
    {t : ClickSessions.Tracker} {forgot : List Mark} (hadmitted : (s.sessions.prune
      w.clock).admitPruned r.session w.clock true s.sessionProtected = some (t, forgot)) :
    ∃ l, Config.step ⟨.receive, s, w⟩ (.server [] (some d)) =
      ⟨.top, ((s.admitted r d.source 0 t).recordRelease d.source r
        (Server.clickRecord r d.source 0) w.clock w.clock).reset true r.key w.clock w.clock
          (w.notes l).clearGeneration, (w.notes l).cleared⟩ := by
  have hpost : Post (Srv.receive (some d)) (fun _ c => ∃ l, c.priv =
      ((s.admitted r d.source 0 t).recordRelease d.source r
        (Server.clickRecord r d.source 0) w.clock w.clock).reset true r.key w.clock w.clock
          (w.notes l).clearGeneration ∧
      c.shared = (w.notes l).cleared) ⟨s, w, []⟩ := by
    have hroom : (s.pruneSessions w.clock).cache.length < maxCacheRecords := h.room
    refine receive_releaseAll h hop <| Post.bind <| Srv.post_get <| Post.seq <|
      alone_mark <| Post.seq <| alone_modify ?_
    dsimp only
    rw [removeOldCache_room hroom]
    refine Post.ite (fun hfull => absurd hroom (Nat.not_lt.mpr hfull)) fun _ => Post.seq <|
      alone_mark <| Post.seq <| alone_modify ?_
    have hadmitted' : ((s.pruneSessions w.clock).sessions.prune w.clock).admitPruned r.session w.clock
        true (s.pruneSessions w.clock).sessionProtected = some (t, forgot) := by
      rw [← hadmitted, ← ClickSessions.Tracker.prune_idem s.sessions w.clock]
      rfl
    rw [hadmitted']
    dsimp only
    rw [acceptRecord_room t r d.source 0 hroom, Server.admitted_pruned]
    refine Post.bind <| alone_now <| Post.seq <| alone_mark <| Post.seq <| alone_modify <|
      alone_beginReset ?_
    simp only [World.notes_notes]
    exact ⟨_, rfl, rfl⟩
  obtain ⟨l, hpriv, hshared⟩ := hpost
  refine ⟨l, ?_⟩
  unfold Config.step
  dsimp only [Stage.statement]
  rw [hpriv, hshared]
  rfl

/-- The server after an accepted ReleaseAll while no other work is queued. -/
theorem Server.fenced_eq (s : Server) (r : ClickProtocol.Request) (source : Peer)
    (t : ClickSessions.Tracker) (now1 now2 now3 now4 generation : ℕ) (hmover : s.mover = {})
    (hwork : s.work = []) :
    ∃ l sent, (∀ e ∈ l, e.key ≠ r.key) ∧
      ((s.admitted r source 0 t).recordRelease source r (clickRecord r source 0) now1 now2).reset
          true r.key now3 now4 generation =
        { s with
          mover := {}, work := [], persistentButtons := 0, scheduledButtons := 0
          trackedGeneration := generation, releaseInflight := false, releasePending := true
          releaseKey := r.key, sessions := t.accept r.session r.command now1, owner := source
          owned := true, last := now2, cache := edits l (s.cache ++ [clickRecord r source 0])
          sent } := by
  obtain ⟨_, hrecord⟩ := (s.admitted r source 0 t).recordRelease_eq source r
    (clickRecord r source 0) now1 now2
  have hedits := Server.reset_edits ((s.admitted r source 0 t).recordRelease source r
    (clickRecord r source 0) now1 now2) true r.key now3 now4 generation
  obtain ⟨_, sent, heq⟩ := Server.reset_eq ((s.admitted r source 0 t).recordRelease source r
    (clickRecord r source 0) now1 now2) true r.key now3 now4 generation
  rw [heq] at hedits ⊢
  rw [hrecord] at hedits ⊢
  have hidle : (s.admitted r source 0 t).mover.stop .cancelled now3 = {} := by
    rw [show (s.admitted r source 0 t).mover = {} from hmover]
    rfl
  dsimp only at hedits ⊢
  rw [hedits, hidle]
  refine ⟨_, sent, fun e he => ?_, rfl⟩
  have hsync : Server.syncEdits ({} : MoveExecutor) = [] := rfl
  have hfinish : Server.finishEdits .cancelled (s.admitted r source 0 t).work = [] := by
    rw [show (s.admitted r source 0 t).work = [] from hwork]
    rfl
  rw [Server.resetEdits, hidle, hsync, hfinish, List.append_nil, List.append_nil, List.nil_append,
    Server.replaceEdits] at he
  split at he
  · rename_i hreplaced
    rw [List.mem_singleton.mp he]
    exact hreplaced.2.2
  · cases he

/-- What an accepted ReleaseAll leaves while no other work is queued. -/
theorem step_fence (h : s.Takes w d r) (hop : r.operation = .releaseAll)
    {t : ClickSessions.Tracker} {forgot : List Mark} (hadmitted : (s.sessions.prune
      w.clock).admitPruned r.session w.clock true s.sessionProtected = some (t, forgot))
    (hmover : s.mover = {}) (hwork : s.work = []) :
    ∃ l edited sent, (∀ e ∈ edited, e.key ≠ r.key) ∧
      Config.step ⟨.receive, s, w⟩ (.server [] (some d)) = ⟨.top, { s with
        mover := {}, work := [], persistentButtons := 0, scheduledButtons := 0
        trackedGeneration := (w.notes l).clearGeneration, releaseInflight := false
        releasePending := true, releaseKey := r.key
        sessions := t.accept r.session r.command w.clock, owner := d.source, owned := true
        last := w.clock, cache := edits edited (s.cache ++ [Server.clickRecord r d.source 0])
        sent }, (w.notes l).cleared⟩ := by
  obtain ⟨l, hstep⟩ := step_releaseAll h hop hadmitted
  obtain ⟨edited, sent, hedited, heq⟩ := s.fenced_eq r d.source t w.clock w.clock w.clock w.clock
    (w.notes l).clearGeneration hmover hwork
  exact ⟨l, edited, sent, hedited, hstep.trans (by rw [heq])⟩

end Click

end Alone

end UsbProxy
