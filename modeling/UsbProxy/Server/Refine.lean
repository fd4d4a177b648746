import UsbProxy.Mixer.Threads
import UsbProxy.Server.Sessions

/-!
# The loop refines the transition system

Every statement of the loop, from any state and under any schedule of the other threads, ends in a
state that atomic steps reach.  A program's private updates between two accesses are invisible to
the other threads, so a handler counts as one step at its last access that writes.
-/

namespace UsbProxy

open Client

/-! ### Specifications of the accesses -/

namespace Srv

variable {s : Server} {w : World}

theorem wp_now {Q : ℕ → Server → World → Prop}
    (h : ∀ t, EnvReach World.env w t → Q t.clock s t) : Wp now Q s w := Wp.call h

theorem wp_snapshot {Q : EndpointSnapshot → Server → World → Prop}
    (h : ∀ t, EnvReach World.env w t → Q t.endpointSnapshot s t) : Wp snapshot Q s w := Wp.call h

theorem wp_mixer {α : Type} {f : World → World × α} {Q : α → Server → World → Prop}
    (h : ∀ t, EnvReach World.env w t → Q (f t).2 s (f t).1) : Wp (mixer f) Q s w := Wp.call h

theorem wp_get {Q : Server → Server → World → Prop} (h : Q s s w) : Wp get Q s w := Wp.getPriv h

theorem wp_modify {f : Server → Server} {Q : Unit → Server → World → Prop} (h : Q () (f s) w) :
    Wp (modify f) Q s w := Wp.update h

theorem wp_mark {l : List Mark} {Q : Unit → Server → World → Prop} (h : Q () s (w.notes l)) :
    Wp (mark l) Q s w := Wp.mark h

section Post

variable {c : Ctx Server World EnvStep}

theorem post_now {Q : ℕ → Ctx Server World EnvStep → Prop}
    (h : Q (envRun World.env c.shared (c.sched.headD [])).clock
      { c with shared := envRun World.env c.shared (c.sched.headD []), sched := c.sched.tail }) :
    Post now Q c := Post.call h

theorem post_snapshot {Q : EndpointSnapshot → Ctx Server World EnvStep → Prop}
    (h : Q (envRun World.env c.shared (c.sched.headD [])).endpointSnapshot
      { c with shared := envRun World.env c.shared (c.sched.headD []), sched := c.sched.tail }) :
    Post snapshot Q c := Post.call h

theorem post_get {Q : Server → Ctx Server World EnvStep → Prop} (h : Q c.priv c) :
    Post get Q c := Post.getPriv h

theorem post_modify {f : Server → Server} {Q : Unit → Ctx Server World EnvStep → Prop}
    (h : Q () { c with priv := f c.priv }) : Post (modify f) Q c := Post.update h

theorem post_mark {l : List Mark} {Q : Unit → Ctx Server World EnvStep → Prop}
    (h : Q () { c with shared := c.shared.notes l }) : Post (mark l) Q c := Post.mark h

end Post

theorem wp_renew {source : Peer} {Q : Unit → Server → World → Prop}
    (h : ∀ t, EnvReach World.env w t → Q () (s.renew source t.clock) t) :
    Wp (renew source) Q s w :=
  Wp.bind (wp_now fun t ht => wp_modify (h t ht))

theorem wp_beginReset {attachRelease : Bool} {key : Key} {Q : Unit → Server → World → Prop}
    (h : ∀ now1 now2 t, EnvReach World.env w t →
      Q () (s.reset attachRelease key now1 now2 t.clearGeneration) t.cleared) :
    Wp (beginReset attachRelease key) Q s w :=
  Wp.bind <| wp_now fun _ h1 => Wp.bind <| wp_now fun _ h2 => Wp.seq <| wp_modify <|
    Wp.bind <| wp_mixer fun _ h3 => wp_modify (h _ _ _ ((h1.trans h2).trans h3))

theorem wp_dropOwner {Q : Unit → Server → World → Prop}
    (h : ∀ now1 now2 t, EnvReach World.env w t →
      Q () (s.dropped now1 now2 t.clearGeneration) t.cleared) : Wp dropOwner Q s w :=
  Wp.seq <| wp_beginReset fun _ _ _ ht => wp_modify (h _ _ _ ht)

end Srv

/-! ### Sequences of atomic steps -/

theorem Steps.env {σ : Sys} {pc : Pc} {s : Server} {w t : World} (h : Steps σ ⟨pc, s, w⟩)
    (ht : EnvReach World.env w t) : Steps σ ⟨pc, s, t⟩ :=
  ht.preserves (P := fun w => Steps σ ⟨pc, s, w⟩) (fun _ _ h => h.tail (.env ..)) h

/-- The clock never goes back. -/
theorem reach_clock {w t : World} (h : EnvReach World.env w t) : w.clock ≤ t.clock :=
  h.relates (R := fun w t => w.clock ≤ t.clock) (fun _ => le_refl _) (fun _ _ _ => le_trans)
    World.env_clock

theorem World.after_failed {w : World} {a : EnqueueArgs} (hlatest : a.latest = false)
    (h : w.result a ≠ .ok) : w.after a = w :=
  World.enqueueReport_unchanged h fun _ _ _ _ hfailed => Endpoint.enqueue_failed hlatest hfailed

section Statements

variable {σ : Sys} {s : Server} {w : World}

theorem track_eq_self {e : EndpointSnapshot}
    (h : (s.track e).trackedGeneration ≠ 0 ∧ e.generation ≠ (s.track e).trackedGeneration) :
    s.track e = s := by
  unfold Server.track at h ⊢
  split
  · rename_i htrack
    rw [if_pos htrack] at h
    exact absurd rfl h.2
  · rfl

theorem checkGeneration_steps (h : Steps σ ⟨.top, s, w⟩) :
    Wp Srv.checkGeneration (fun _ s' w' => Steps σ ⟨.events, s', w'⟩) s w := by
  refine Wp.bind <| Srv.wp_snapshot fun t ht => Wp.seq <| Srv.wp_mark <| Wp.seq <|
    Srv.wp_modify <| Wp.bind <| Srv.wp_get <| Wp.ite (fun hdiff => ?_) fun hsame => ?_
  · have htrack : s.track t.endpointSnapshot = s := track_eq_self hdiff
    rw [htrack] at hdiff ⊢
    refine Wp.seq <| Srv.wp_dropOwner fun now1 now2 t' ht' => Wp.bind <| Srv.wp_snapshot
      fun t'' ht'' => Wp.seq <| Srv.wp_mark <| Srv.wp_modify ?_
    have h1 := Steps.env ((h.env ht).tail (.differ s t hdiff)) ht'
    have h2 := Steps.env (h1.tail (.resetTop s t' now1 now2)) ht''
    exact h2.tail (.recheck _ t'')
  · refine Wp.pure ((h.env ht).tail (.check s t ?_))
    simp only [not_and_or, not_not] at hsame
    exact hsame

theorem processEvent_steps {v : WriterEvent} {rest : List WriterEvent}
    (h : Steps σ ⟨.handling (v :: rest), s, w⟩) :
    Wp (Srv.processEvent v) (fun _ s' w' => Steps σ ⟨.handling rest, s', w'⟩) s w := by
  refine Wp.seq <| Srv.wp_modify <| Wp.bind <| Srv.wp_get <| Wp.ite (fun hfail => ?_) fun hok =>
    Wp.ite (fun hdone => ?_) fun hdone => ?_
  · exact Srv.wp_dropOwner fun now1 now2 t ht =>
      (h.env ht).tail (.eventFailed v rest s t now1 now2 hfail)
  · exact Wp.seq <| Srv.wp_mark <| Srv.wp_modify <|
      h.tail (.eventRelease v rest s w (by simpa using hok) hdone)
  · exact Srv.wp_modify <|
      h.tail (.eventClick v rest s w (by simpa using hok) (by simpa using hdone))

theorem processEvents_steps : ∀ {events : List WriterEvent} {s : Server} {w : World},
    Steps σ ⟨.handling events, s, w⟩ →
    Wp (Srv.processEvents events) (fun _ s' w' => Steps σ ⟨.handling [], s', w'⟩) s w
  | [], _, _, h => Wp.pure h
  | _ :: _, _, _, h => Wp.seq <| (processEvent_steps h).mono fun _ _ _ h => processEvents_steps h

theorem processWriterEvents_steps (h : Steps σ ⟨.events, s, w⟩) :
    Wp Srv.processWriterEvents (fun _ s' w' => Steps σ ⟨.overflow, s', w'⟩) s w := by
  refine Wp.bind <| Srv.wp_mixer fun t ht => ?_
  have h1 := (h.env ht).tail (.takeEvents s t)
  exact (processEvents_steps h1).mono fun _ s' w' h => h.tail (.eventsDone s' w')

theorem checkOverflow_steps (h : Steps σ ⟨.overflow, s, w⟩) :
    Wp Srv.checkOverflow (fun _ s' w' => Steps σ ⟨.lease, s', w'⟩) s w := by
  refine Wp.bind <| Srv.wp_mixer fun t ht => Wp.ite (fun hset => ?_) fun hclear => ?_
  · refine Srv.wp_dropOwner fun now1 now2 t' ht' => ?_
    have h1 := Steps.env ((h.env ht).tail (.overflowSet s t hset)) ht'
    exact h1.tail (.resetOverflow s t' now1 now2)
  · have hflag : t.writerOverflow = false := by simpa [World.takeWriterOverflow] using hclear
    have hworld : (t.takeWriterOverflow).1 = t := by
      simp only [World.takeWriterOverflow, ← hflag]
    refine Wp.pure ?_
    rw [hworld]
    exact (h.env ht).tail (.overflowClear s t hflag)

theorem checkLease_steps (h : Steps σ ⟨.lease, s, w⟩) :
    Wp Srv.checkLease (fun _ s' w' => Steps σ ⟨.move, s', w'⟩) s w := by
  refine Wp.bind <| Srv.wp_now fun t ht => Wp.bind <| Srv.wp_get <| Wp.ite (fun _ => ?_) fun _ => ?_
  · exact Srv.wp_dropOwner fun now1 now2 t' ht' =>
      ((h.env ht).env ht').tail (.resetLease s t' now1 now2)
  · exact Wp.pure ((h.env ht).tail (.leaseKept s t))

/-- The reports of a transaction never supersede. -/
theorem tick_latest {m : MoveExecutor} {e : EndpointSnapshot} {now : ℕ} {args : EnqueueArgs}
    (h : (m.tick e now).2 = .enqueue args) : args.latest = false := by
  obtain ⟨-, -, -, -, command, rfl⟩ := MoveExecutor.tick_enqueue h
  rfl

theorem tickMover_steps (h : Steps σ ⟨.move, s, w⟩) :
    Wp Srv.tickMover (fun _ s' w' => Steps σ ⟨.schedule, s', w'⟩) s w := by
  refine Wp.bind <| Wp.bind <| Srv.wp_snapshot fun t ht => Wp.bind <| Srv.wp_now fun t' ht' =>
    Wp.bind <| Srv.wp_get <| Wp.seq <| Srv.wp_modify ?_
  have h1 : Steps σ ⟨.move, s, t'⟩ := (h.env ht).env ht'
  have hreset {m : MoveExecutor} {u : World} (hu : Steps σ ⟨.move, s, u⟩)
      (hm : ((s.mover.tick t.endpointSnapshot t'.clock).2 = .done true ∧
          m = (s.mover.tick t.endpointSnapshot t'.clock).1) ∨
        ∃ args result, (s.mover.tick t.endpointSnapshot t'.clock).2 = .enqueue args ∧
          (result = .notReady ∨ result = .unsupported) ∧
          m = ((s.mover.tick t.endpointSnapshot t'.clock).1.afterEnqueue result t'.clock).1) :
      Wp (do
          Srv.modify (·.syncMove)
          Srv.beginReset false {}
          Srv.modify (·.syncMove))
        (fun _ s' w' => Steps σ ⟨.schedule, s', w'⟩) { s with mover := m } u :=
    Wp.seq <| Srv.wp_modify <| Wp.seq <| Srv.wp_beginReset fun now1 now2 u' hu' =>
      Srv.wp_modify ((hu.env hu').tail (.tickReset s u' _ _ now1 now2 m hm))
  cases htick : (s.mover.tick t.endpointSnapshot t'.clock).2 with
  | done reset =>
    refine Wp.pure ?_
    cases reset with
    | true => exact Wp.ite (fun _ => hreset h1 (.inl ⟨htick, rfl⟩)) fun hn => absurd rfl hn
    | false =>
      refine Wp.ite (fun hn => absurd hn (by simp)) fun _ => Srv.wp_modify ?_
      exact h1.tail (.tickDone s t' _ _ (le_refl _) htick)
  | enqueue args =>
    refine Wp.bind <| Srv.wp_mixer fun u hu => Wp.seq <| Srv.wp_modify <| Wp.pure ?_
    have h2 : Steps σ ⟨.move, s, u⟩ := h1.env hu
    have henqueue (hres : u.result args = .ok ∨ u.result args = .queueFull) :=
      h2.tail (.tickEnqueue s u _ _ args (reach_clock hu) htick hres)
    have hfail (hres : u.result args = .notReady ∨ u.result args = .unsupported) :
        (u.enqueueReport args).1 = u :=
      World.after_failed (tick_latest htick) (by rcases hres with h | h <;> simp [h])
    cases hres : u.result args with
    | ok =>
      have hres' : (u.enqueueReport args).2 = .ok := hres
      simp only [hres', MoveExecutor.afterEnqueue]
      refine Wp.ite (fun hn => absurd hn (by simp)) fun _ => Srv.wp_modify ?_
      have h3 := henqueue (.inl hres)
      rw [hres] at h3
      exact h3
    | queueFull =>
      have hres' : (u.enqueueReport args).2 = .queueFull := hres
      simp only [hres', MoveExecutor.afterEnqueue]
      refine Wp.ite (fun hn => absurd hn (by simp)) fun _ => Srv.wp_modify ?_
      have h3 := henqueue (.inr hres)
      rw [hres] at h3
      exact h3
    | notReady =>
      have hres' : (u.enqueueReport args).2 = .notReady := hres
      rw [hfail (.inl hres)]
      simp only [hres', MoveExecutor.afterEnqueue]
      exact Wp.ite
        (fun _ => hreset h2 (.inr ⟨args, .notReady, htick, .inl rfl, rfl⟩))
        fun hn => absurd trivial hn
    | unsupported =>
      have hres' : (u.enqueueReport args).2 = .unsupported := hres
      rw [hfail (.inr hres)]
      simp only [hres', MoveExecutor.afterEnqueue]
      exact Wp.ite
        (fun _ => hreset h2 (.inr ⟨args, .unsupported, htick, .inr rfl, rfl⟩))
        fun hn => absurd trivial hn

/-- A reset of the click scheduler. -/
theorem scheduleReset_steps (hp : s.releasePending = false) (hw : s.work ≠ [])
    (h : Steps σ ⟨.schedule, s, w⟩) :
    Wp (Srv.beginReset false {}) (fun _ s' w' => Steps σ ⟨.telemetry, s', w'⟩) s w :=
  Srv.wp_beginReset fun now1 now2 _ ht => (h.env ht).tail (.resetSchedule s _ now1 now2 hp hw)

theorem pressFront_steps {click : ClickWork} {rest : List ClickWork}
    (hp : s.releasePending = false) (hw : s.work = click :: rest)
    (hphase : click.phase = .awaitPress) (hdue : click.dueNs ≤ w.clock)
    (h : Steps σ ⟨.schedule, s, w⟩) :
    Wp (Srv.pressFront click) (fun _ s' w' => Steps σ ⟨.telemetry, s', w'⟩) s w := by
  have hne : s.work ≠ [] := by simp [hw]
  refine Wp.bind <| Srv.wp_snapshot fun t ht => Wp.bind <| Srv.wp_get <|
    Wp.ite (fun _ => scheduleReset_steps hp hne (h.env ht)) fun hready =>
    Wp.ite (fun _ => ?_) fun hheld => Wp.bind <| Srv.wp_mixer fun u hu => ?_
  · exact Srv.wp_modify ((h.env ht).tail (.pressRefused s t click rest hp hw hphase))
  · have h1 : Steps σ ⟨.schedule, s, u⟩ := (h.env ht).env hu
    simp only [not_or, Bool.not_eq_true', Bool.not_eq_false, not_not] at hready hheld
    have hworld (hres : u.result (s.pressArgs click) ≠ .ok) :
        (u.enqueueReport (s.pressArgs click)).1 = u := World.after_failed rfl hres
    cases hres : (u.enqueueReport (s.pressArgs click)).2 with
    | ok =>
      have hclock : w.clock ≤ u.clock := (reach_clock ht).trans (reach_clock hu)
      exact Srv.wp_modify (h1.tail (.enqueuePress s u click rest _ hp hw hphase
        (hdue.trans hclock) ⟨hready.1, hready.2, hheld⟩ hres))
    | unsupported =>
      rw [hworld (by simp [World.result, hres])]
      exact scheduleReset_steps hp hne h1
    | notReady | queueFull =>
      rw [hworld (by simp [World.result, hres])]
      exact Wp.pure (h1.tail (.scheduleIdle s u))

theorem releaseFront_steps {click : ClickWork} {rest : List ClickWork}
    (hp : s.releasePending = false) (hw : s.work = click :: rest)
    (hphase : click.phase = .holding ∨ click.phase = .awaitRelease) (hdue : click.dueNs ≤ w.clock)
    (h : Steps σ ⟨.schedule, s, w⟩) :
    Wp (Srv.releaseFront click) (fun _ s' w' => Steps σ ⟨.telemetry, s', w'⟩) s w := by
  have hne : s.work ≠ [] := by simp [hw]
  refine Wp.bind <| Srv.wp_get <| Wp.bind <| Srv.wp_mixer fun u hu => ?_
  have h1 : Steps σ ⟨.schedule, s, u⟩ := h.env hu
  have hworld (hres : u.result (s.releaseArgs click) ≠ .ok) :
      (u.enqueueReport (s.releaseArgs click)).1 = u := World.after_failed rfl hres
  cases hres : (u.enqueueReport (s.releaseArgs click)).2 with
  | ok =>
    exact Srv.wp_modify (h1.tail (.enqueueClickRelease s u click rest hp hw hphase
      (hdue.trans (reach_clock hu)) hres))
  | unsupported =>
    rw [hworld (by simp [World.result, hres])]
    exact scheduleReset_steps hp hne h1
  | notReady | queueFull =>
    rw [hworld (by simp [World.result, hres])]
    exact Srv.wp_modify (h1.tail (.releaseWaits s u click rest hp hw hphase))

theorem enqueueFinalRelease_failed {tracked : ℕ} {key : Key}
    (h : (w.enqueueFinalRelease tracked key).2 ≠ .ok) :
    (w.enqueueFinalRelease tracked key).1 = w := by
  have hres : (w.enqueueReport
      { kind := .releaseAll, session := key.session, commandId := key.command }).2 ≠ .ok := h
  simp only [World.enqueueFinalRelease, hres, false_and, if_false]
  exact World.after_failed rfl hres

/-- The end of `scheduler_tick`: the click in front. -/
def Srv.serveFront (now : ℕ) : Srv Unit := do
  let s ← Srv.get
  match s.work with
  | [] => pure ()
  | click :: _ =>
    if s.releasePending then pure ()
    else if click.phase = .awaitPress ∧ click.dueNs ≤ now then Srv.pressFront click
    else if (click.phase = .holding ∨ click.phase = .awaitRelease) ∧ click.dueNs ≤ now then
      Srv.releaseFront click
    else pure ()

theorem Srv.schedulerTick_eq : Srv.schedulerTick = (do
    let t ← Srv.now
    Srv.enqueueRelease
    Srv.serveFront t) := rfl

/-- While a release is owed no click is served. -/
theorem serveFront_owed {now : ℕ} (howed : s.releasePending = true)
    (h : Steps σ ⟨.telemetry, s, w⟩) :
    Wp (Srv.serveFront now) (fun _ s' w' => Steps σ ⟨.telemetry, s', w'⟩) s w := by
  refine Wp.bind <| Srv.wp_get ?_
  split
  · exact Wp.pure h
  · exact Wp.ite (fun _ => Wp.pure h) fun hn => absurd howed hn

theorem serveFront_steps {now : ℕ} (hnow : now ≤ w.clock) (h : Steps σ ⟨.schedule, s, w⟩) :
    Wp (Srv.serveFront now) (fun _ s' w' => Steps σ ⟨.telemetry, s', w'⟩) s w := by
  refine Wp.bind <| Srv.wp_get ?_
  split
  · exact Wp.pure (h.tail (.scheduleIdle s w))
  · rename_i click rest hw
    refine Wp.ite (fun _ => Wp.pure (h.tail (.scheduleIdle s w))) fun hp => ?_
    have hp : s.releasePending = false := by simpa using hp
    exact Wp.ite (fun hpress => pressFront_steps hp hw hpress.1 (hpress.2.trans hnow) h) fun _ =>
      Wp.ite (fun hrelease => releaseFront_steps hp hw hrelease.1 (hrelease.2.trans hnow) h) fun _ =>
        Wp.pure (h.tail (.scheduleIdle s w))

theorem schedulerTick_steps (h : Steps σ ⟨.schedule, s, w⟩) :
    Wp Srv.schedulerTick (fun _ s' w' => Steps σ ⟨.telemetry, s', w'⟩) s w := by
  rw [Srv.schedulerTick_eq]
  refine Wp.bind <| Srv.wp_now fun t ht => Wp.seq ?_
  have h1 : Steps σ ⟨.schedule, s, t⟩ := h.env ht
  refine Wp.bind <| Srv.wp_get <| Wp.ite (fun howed => ?_) fun _ =>
    Wp.pure <| serveFront_steps (le_refl _) h1
  simp only [Bool.not_eq_true'] at howed
  refine Wp.bind <| Srv.wp_mixer fun u hu => Wp.ite (fun hres => ?_) fun hres => ?_
  · have h2 := (h1.env hu).tail (.enqueueRelease s u howed.1 howed.2 hres)
    exact Srv.wp_modify <| serveFront_owed howed.1 h2
  · rw [enqueueFinalRelease_failed hres]
    exact Wp.pure <| serveFront_steps (reach_clock hu) (h1.env hu)

theorem sendTelemetry_steps (h : Steps σ ⟨.telemetry, s, w⟩) :
    Wp Srv.sendTelemetry (fun _ s' w' => Steps σ ⟨.receive, s', w'⟩) s w := by
  refine Wp.bind <| Srv.wp_now fun t ht => Wp.bind <| Srv.wp_get <| Wp.ite (fun _ => ?_) fun _ =>
    Wp.pure ((h.env ht).tail (.silent s t))
  exact Wp.bind <| Srv.wp_snapshot fun u hu => Srv.wp_modify
    (((h.env ht).env hu).tail (.report s u _ _))

/-! ### The cache on admission -/

theorem evictLoop_room (fuel : ℕ) {cache : List CachedCommand}
    (h : cache.length < maxCacheRecords) : evictLoop fuel cache = (cache, []) := by
  cases fuel with
  | zero => rfl
  | succ fuel => simp [evictLoop, h]

theorem removeOldCache_room (h : s.cache.length < maxCacheRecords) : s.removeOldCache = s := by
  simp [Server.removeOldCache, evictLoop_room _ h]

theorem acceptRecord_room (sessions : ClickSessions.Tracker) (r : ClickProtocol.Request)
    (source : Peer) (accepted : ℕ) (h : s.cache.length < maxCacheRecords) :
    { s with sessions }.acceptRecord r source accepted =
      some (s.admitted r source accepted sessions, Server.clickRecord r source accepted) := by
  simp only [Server.acceptRecord, Server.removeOldCache, evictLoop_room _ h, Nat.not_le.mpr h,
    if_false, Server.admitted]

theorem evictLoop_sublist (fuel : ℕ) (cache : List CachedCommand) :
    (evictLoop fuel cache).1.Sublist cache := by
  induction fuel generalizing cache with
  | zero => exact .refl cache
  | succ fuel ih =>
    unfold evictLoop
    split
    · exact .refl cache
    · split
      · exact .refl cache
      · exact (ih _).trans List.eraseP_sublist

theorem findCache_removeOldCache {key : Key} (h : findCache s.cache key = none) :
    findCache s.removeOldCache.cache key = none := by
  simp only [findCache, List.find?_eq_none] at h ⊢
  exact fun c hc => h c ((evictLoop_sublist _ _).subset hc)

/-! ### The handlers -/

/-- A place where a handler can give up. -/
def Pc.Answers (pc : Pc) : Prop := pc = .receive ∨ ∃ e, pc = .deciding e

theorem Pc.answers_receive : Pc.receive.Answers := .inl rfl

theorem Pc.answers_deciding (e : EndpointSnapshot) : (Pc.deciding e).Answers := .inr ⟨e, rfl⟩

/-- A handler run from `s` and `w` ends at the top, in a state the atomic steps reach. -/
abbrev Handled (σ : Sys) (x : Srv Unit) (s : Server) (w : World) : Prop :=
  Wp x (fun _ s' w' => Steps σ ⟨.top, s', w'⟩) s w

variable {d : Datagram} {pc : Pc}

theorem ignored (hpc : pc.Answers) (h : Steps σ ⟨pc, s, w⟩) : Handled σ (pure ()) s w :=
  Wp.pure (h.tail (.ignore pc s w hpc))

theorem answered {dest : Peer} {p : Packet} {f : Server → Server} (hpc : pc.Answers)
    (h : Steps σ ⟨pc, s, w⟩) (hf : f s = s.send dest p := by rfl) :
    Handled σ (Srv.modify f) s w := by
  refine Srv.wp_modify ?_
  rw [hf]
  exact h.tail (.answer pc s w dest p hpc)

theorem handleSubscribe_steps (h : Steps σ ⟨.receive, s, w⟩) :
    Handled σ (Srv.handleSubscribe d) s w := by
  refine Wp.bind <| Srv.wp_now fun t ht => Wp.bind <| Srv.wp_get <|
    Wp.ite (fun _ => answered Pc.answers_receive (h.env ht)) fun _ => Wp.bind <| Srv.wp_now
      fun t' ht' => Srv.wp_modify (((h.env ht).env ht').tail (.subscribe s t' d.source d.data _))

theorem handleQuery_steps (h : Steps σ ⟨.receive, s, w⟩) : Handled σ (Srv.handleQuery d) s w := by
  unfold Srv.handleQuery
  split
  · exact ignored Pc.answers_receive h
  · exact Wp.bind <| Srv.wp_snapshot fun t ht => Srv.wp_modify
      ((h.env ht).tail (.answer _ s t _ _ Pc.answers_receive))

theorem rejectMove_steps {r : MoveProtocol.Request} {status : MoveProtocol.Status}
    (hpc : pc.Answers) (h : Steps σ ⟨pc, s, w⟩) : Handled σ (Srv.rejectMove d r status) s w :=
  Wp.bind <| Srv.wp_snapshot fun t ht => Srv.wp_modify
    ((h.env ht).tail (.answer pc s t _ _ hpc))

theorem retryMove_steps {r : MoveProtocol.Request} {prior : CachedCommand}
    (hfind : findCache s.cache r.key = some prior) (h : Steps σ ⟨.receive, s, w⟩) :
    Handled σ (Srv.retryMove d r prior) s w := by
  refine Wp.ite (fun _ => rejectMove_steps Pc.answers_receive h) fun hsame => ?_
  simp only [not_or, Bool.not_eq_true', Bool.not_eq_false] at hsame
  refine Wp.bind <| Srv.wp_get <| Wp.seq <| Srv.wp_mark <| Wp.seq <| Srv.wp_modify <| Wp.seq <|
    Srv.wp_renew fun t ht => Srv.wp_modify ?_
  exact Steps.env (h.tail (.retryMove s w d.source r prior t.clock hfind hsame.1 hsame.2)) ht

theorem executeMove_steps {r : MoveProtocol.Request} {e : EndpointSnapshot}
    (hr : ∃ data, MoveProtocol.parse data = some r) (hnone : findCache s.cache r.key = none)
    (hdistinct : s.sessions.Distinct)
    (hstale : s.sessions.isStale r.session r.command = false)
    (hverdict : s.moveVerdict e r = none) (h : Steps σ ⟨.deciding e, s, w⟩) :
    Handled σ (Srv.executeMove d r e) s w := by
  refine Wp.bind <| Srv.wp_get <| Wp.seq <| Srv.wp_mark <| Wp.seq <| Srv.wp_modify <|
    Wp.ite (fun _ => ?_) fun hroom => Wp.bind <| Srv.wp_now fun t ht => Wp.seq <| Srv.wp_mark <|
      Wp.seq <| Srv.wp_modify ?_
  · exact rejectMove_steps (Pc.answers_deciding e) (h.tail (.evict s w e))
  · have h1 := Steps.env (h.tail (.evict s w e)) ht
    have h2 := h1.tail (.prune _ _ t t.clock (Pc.answers_deciding e))
    split
    · exact rejectMove_steps (Pc.answers_deciding e) h2
    · rename_i sessions forgot hadmitted
      refine Wp.bind <| Srv.wp_now fun t1 ht1 => Wp.bind <| Srv.wp_now fun t2 ht2 => Wp.bind <|
        Srv.wp_now fun t3 ht3 => Wp.seq <| Srv.wp_mark <| Srv.wp_modify ?_
      have h3 := Steps.env h2 ((ht1.trans ht2).trans ht3)
      exact h3.tail (.startMove _ t3 d.source r e sessions forgot t.clock _ _ _ hr
        ⟨findCache_removeOldCache hnone, s.sessions, t.clock, rfl, hdistinct, hstale⟩ hverdict
        (Nat.not_le.mp hroom) hadmitted)

theorem handleMove_steps (hdistinct : s.sessions.Distinct) (h : Steps σ ⟨.receive, s, w⟩) :
    Handled σ (Srv.handleMove d) s w := by
  unfold Srv.handleMove
  have hpc := Pc.answers_receive
  split
  · exact ignored hpc h
  rename_i r hparse
  refine Wp.bind <| Srv.wp_get <| Wp.ite (fun _ => rejectMove_steps hpc h) fun _ =>
    Wp.ite (fun _ => rejectMove_steps hpc h) fun _ => ?_
  split
  · rename_i prior hfind
    exact retryMove_steps hfind h
  rename_i hnone
  refine Wp.ite (fun _ => rejectMove_steps hpc h) fun _ => Wp.bind <| Srv.wp_now fun t ht =>
    Wp.seq <| Srv.wp_mark <| Wp.seq <| Srv.wp_modify ?_
  have h1 := (h.env ht).tail (.prune _ s t t.clock hpc)
  refine Wp.ite (fun _ => rejectMove_steps hpc h1) fun hstale => Wp.bind <| Srv.wp_snapshot
    fun u hu => Wp.seq <| Srv.wp_mark ?_
  have h2 := (Steps.env h1 hu).tail (.sample _ u)
  split
  · exact rejectMove_steps (Pc.answers_deciding _) h2
  · rename_i hverdict
    exact executeMove_steps ⟨d.data, hparse⟩ hnone (hdistinct.prune _)
      ((Bool.not_eq_true _).mp hstale) hverdict h2

theorem retryClick_steps {r : ClickProtocol.Request} {prior : CachedCommand}
    (hfind : findCache s.cache r.key = some prior) (h : Steps σ ⟨.receive, s, w⟩) :
    Handled σ (Srv.retryClick d r prior) s w := by
  refine Wp.ite (fun _ => answered Pc.answers_receive h) fun hsame => ?_
  simp only [not_or, Bool.not_eq_true] at hsame
  exact Wp.seq <| Srv.wp_renew fun t ht => Srv.wp_modify
    ((h.env ht).tail (.retryClick s t d.source r prior _ hfind hsame.1))

theorem scheduleClick_steps {r : ClickProtocol.Request} {e : EndpointSnapshot} {now : ℕ}
    (hr : ∃ data, ClickProtocol.parse data = some r) (hnone : findCache s.cache r.key = none)
    (hdistinct : s.sessions.Distinct)
    (hstale : s.sessions.isStale r.session r.command = false)
    (hverdict : s.scheduleVerdict e r = none) (h : Steps σ ⟨.deciding e, s, w⟩) :
    Handled σ (Srv.scheduleClick d r e now) s w := by
  have h1 := h.tail (.evict s w e)
  refine Wp.bind <| Srv.wp_get <| Wp.seq <| Srv.wp_mark <| Wp.seq <| Srv.wp_modify <|
    Wp.ite (fun _ => answered (Pc.answers_deciding e) h1) fun hroom => Wp.seq <| Srv.wp_mark <|
      Wp.seq <| Srv.wp_modify ?_
  have h2 := h1.tail (.prune _ _ _ now (Pc.answers_deciding e))
  have hroom := Nat.not_le.mp hroom
  split
  · exact answered (Pc.answers_deciding e) h2
  rename_i sessions forgot hadmitted
  have hrecord := acceptRecord_room sessions r d.source r.count hroom
  rw [hrecord]
  refine Wp.bind <| Srv.wp_now fun t1 ht1 => Wp.bind <| Srv.wp_now fun t2 ht2 => Wp.seq <|
    Srv.wp_mark <| Srv.wp_modify ?_
  exact (Steps.env h2 (ht1.trans ht2)).tail (.pushClick _ t2 d.source r e sessions forgot now _ _ hr
    ⟨findCache_removeOldCache hnone, s.sessions, now, rfl, hdistinct, hstale⟩ hverdict hroom
    hadmitted)

theorem releaseAll_steps {r : ClickProtocol.Request} {e : EndpointSnapshot} {now : ℕ}
    (hr : ∃ data, ClickProtocol.parse data = some r) (hnone : findCache s.cache r.key = none)
    (hdistinct : s.sessions.Distinct)
    (hstale : s.sessions.isStale r.session r.command = false)
    (h : Steps σ ⟨.deciding e, s, w⟩) : Handled σ (Srv.releaseAll d r now) s w := by
  have h1 := h.tail (.evict s w e)
  refine Wp.bind <| Srv.wp_get <| Wp.seq <| Srv.wp_mark <| Wp.seq <| Srv.wp_modify <|
    Wp.ite (fun _ => answered (Pc.answers_deciding e) h1) fun hroom => Wp.seq <| Srv.wp_mark <|
      Wp.seq <| Srv.wp_modify ?_
  have h2 := h1.tail (.prune _ _ _ now (Pc.answers_deciding e))
  have hroom := Nat.not_le.mp hroom
  split
  · exact answered (Pc.answers_deciding e) h2
  rename_i sessions forgot hadmitted
  have hrecord := acceptRecord_room sessions r d.source 0 hroom
  rw [hrecord]
  refine Wp.bind <| Srv.wp_now fun t ht => Wp.seq <| Srv.wp_mark <| Wp.seq <| Srv.wp_modify <|
    Srv.wp_beginReset fun now1 now2 u hu => ?_
  have h3 := (Steps.env h2 ht).tail (.recordRelease _ t d.source r e sessions forgot now t.clock hr
    ⟨findCache_removeOldCache hnone, s.sessions, now, rfl, hdistinct, hstale⟩ hroom hadmitted)
  exact (Steps.env h3 hu).tail (.fence _ u r.key now1 now2)

theorem handleClick_steps (hdistinct : s.sessions.Distinct) (h : Steps σ ⟨.receive, s, w⟩) :
    Handled σ (Srv.handleClick d) s w := by
  unfold Srv.handleClick
  have hpc := Pc.answers_receive
  split
  · exact answered hpc h
  rename_i r hparse
  refine Wp.bind <| Srv.wp_get <| Wp.ite (fun _ => answered hpc h) fun _ => ?_
  split
  · rename_i prior hfind
    exact retryClick_steps hfind h
  rename_i hnone
  refine Wp.bind <| Srv.wp_now fun t ht => Wp.seq <| Srv.wp_mark <| Wp.seq <| Srv.wp_modify ?_
  have h1 := (h.env ht).tail (.prune _ s t t.clock hpc)
  refine Wp.ite (fun _ => answered hpc h1) fun hstale => Wp.bind <| Srv.wp_snapshot
    fun u hu => Wp.seq <| Srv.wp_mark ?_
  have h2 := (Steps.env h1 hu).tail (.sample _ u)
  have hstale : (s.sessions.prune t.clock).isStale r.session r.command = false := by
    simpa using hstale
  split
  · split
    · exact answered (Pc.answers_deciding _) h2
    · rename_i hverdict
      exact scheduleClick_steps ⟨d.data, hparse⟩ hnone (hdistinct.prune _) hstale hverdict h2
  · exact releaseAll_steps ⟨d.data, hparse⟩ hnone (hdistinct.prune _) hstale h2

theorem applySnapshot_steps {sequence : BitVec 32} {packetNow : ℕ}
    (hnew : s.movementReplay.isStale d.source sequence = false)
    (h : Steps σ ⟨.receive, s, w⟩) :
    Handled σ (Srv.applySnapshot d sequence packetNow) s w := by
  refine Wp.bind <| Srv.wp_snapshot fun t ht => Wp.seq <| Srv.wp_mark <| Wp.bind <| Srv.wp_get ?_
  have h1 := (h.env ht).tail (.sample s t)
  refine Wp.ite (fun _ => ignored (Pc.answers_deciding _) h1) fun hready =>
    Wp.ite (fun hactive => Wp.ite (fun _ => ?_) fun _ => ignored (Pc.answers_deciding _) h1)
      fun hmover => ?_
  · exact Wp.seq <| Srv.wp_renew fun u hu => Srv.wp_mark
      ((Steps.env h1 hu).tail (.heartbeat s u _ d.source sequence _ hactive hnew))
  simp only [not_or, Bool.not_eq_true', Bool.not_eq_false] at hready
  have hmover : s.mover.active = false := by simpa using hmover
  -- an accepted packet, from the step that records it
  have haccept {u' : World} (hstep : ∀ c, Steps σ
      ⟨.top, { (s.applySnapshot d.source sequence (Server.snapshotButtons d.data)
          packetNow).renew d.source c with trackedGeneration := t.endpointSnapshot.generation },
        u'.notes (s.snapshotMarks d.source sequence (Server.snapshotButtons d.data) packetNow)⟩) :
      Handled σ (Srv.acceptSnapshot d sequence t.endpointSnapshot packetNow) s u' :=
    Wp.bind <| Srv.wp_get <| Wp.seq <| Srv.wp_mark <| Wp.seq <| Srv.wp_modify <| Wp.seq <|
      Srv.wp_renew fun v hv => Srv.wp_modify (Steps.env (hstep v.clock) hv)
  split
  · rename_i hnone
    exact haccept fun c => h1.tail (.applySnapshot s _ _ _ d.source sequence _ _ packetNow c
      hready.1 hmover hnew (by rw [hnone]))
  · rename_i args hsome
    refine Wp.bind <| Srv.wp_mixer fun u hu => Wp.ite (fun hres => ?_) fun hres => ?_
    · exact haccept fun c => (Steps.env h1 hu).tail (.applySnapshot s u _ _ d.source sequence _ _
        packetNow c hready.1 hmover hnew (by rw [hsome]; exact ⟨hres, rfl⟩))
    · exact Wp.pure ((Steps.env h1 hu).tail (.refuseReport s u _ args hres))

theorem handleSnapshot_steps (h : Steps σ ⟨.receive, s, w⟩) :
    Handled σ (Srv.handleSnapshot d) s w := by
  refine Wp.bind <| Srv.wp_now fun t ht =>
    Wp.ite (fun _ => ignored Pc.answers_receive (h.env ht)) fun _ => Wp.bind <| Srv.wp_get <|
      Wp.seq <| Srv.wp_mark <| Wp.seq <| Srv.wp_modify ?_
  have h1 := (h.env ht).tail (.pruneReplay s t t.clock)
  exact Wp.ite (fun _ => ignored Pc.answers_receive h1) fun hnew =>
    applySnapshot_steps ((Bool.not_eq_true _).mp hnew) h1

theorem performAscii_steps {c : Ascii.Command} (hmover : s.mover.active = false)
    (h : Steps σ ⟨.receive, s, w⟩) : Handled σ (Srv.performAscii d c) s w := by
  refine Wp.bind <| Srv.wp_snapshot fun t ht => Wp.seq <| Srv.wp_mark <| Wp.bind <| Srv.wp_get ?_
  have h1 := (h.env ht).tail (.sample s t)
  have hpc := Pc.answers_deciding t.endpointSnapshot
  refine Wp.ite (fun _ => answered hpc h1) fun hready => Wp.ite (fun _ => answered hpc h1)
    fun hbutton => ?_
  simp only [Bool.not_eq_true', Bool.not_eq_false] at hready
  simp only [not_or, Nat.not_lt] at hbutton
  refine Wp.ite (fun _ => Wp.ite (fun _ => answered hpc h1) fun hheld =>
    Wp.ite (fun _ => answered hpc h1) fun hroom => ?_) fun _ => ?_
  · refine Wp.bind <| Srv.wp_now fun u hu => Wp.seq <| Srv.wp_mark <| Wp.seq <| Srv.wp_modify <|
      Wp.seq <| Srv.wp_renew fun v hv => Wp.seq <| Srv.wp_modify <| Srv.wp_modify ?_
    exact Steps.env ((Steps.env h1 hu).tail (.asciiClick s u _ d.source c.button u.clock v.clock
      hready hmover ⟨hbutton.1, hbutton.2.1⟩ (by simpa using hheld) (Nat.not_le.mp hroom))) hv
  · refine Wp.bind <| Srv.wp_mixer fun u hu => ?_
    have h2 := Steps.env h1 hu
    refine Wp.ite (fun hres => ?_) fun hres => Wp.seq <| Srv.wp_mark <| Wp.seq <| Srv.wp_modify <|
      Wp.seq <| Srv.wp_renew fun v hv => Wp.seq <| Srv.wp_modify <| Srv.wp_modify ?_
    · have hworld : (u.enqueueReport (s.asciiArgs c.command c.next)).1 = u :=
        World.after_failed rfl hres
      rw [hworld]
      exact answered hpc h2
    · exact Steps.env (h2.tail (.asciiReport s u _ d.source c.command c.next v.clock hready hmover
        (not_not.mp hres))) hv

theorem handleAscii_steps {text : List Char} (h : Steps σ ⟨.receive, s, w⟩) :
    Handled σ (Srv.handleAscii d text) s w := by
  unfold Srv.handleAscii
  have hpc := Pc.answers_receive
  split
  · exact answered hpc h
  refine Wp.bind <| Srv.wp_get <| Wp.ite (fun _ => Wp.ite (fun _ => answered hpc h) fun _ => ?_)
    fun _ => Wp.ite (fun _ => answered hpc h) fun hmover => ?_
  · refine Wp.seq <| Srv.wp_beginReset fun now1 now2 t ht => Wp.seq <| Srv.wp_renew fun u hu =>
      Srv.wp_modify ?_
    exact Steps.env ((h.env ht).tail (.asciiReset s t d.source now1 now2 u.clock)) hu
  · split
    · exact answered hpc h
    · exact performAscii_steps (by simpa using hmover) h

theorem handleText_steps (h : Steps σ ⟨.receive, s, w⟩) : Handled σ (Srv.handleText d) s w := by
  have hpc := Pc.answers_receive
  refine Wp.bind <| Srv.wp_get <| Wp.ite (fun _ => Wp.bind <| Srv.wp_snapshot fun t ht =>
    answered hpc (h.env ht)) fun _ => Wp.ite (fun _ => answered hpc h) fun _ =>
      Wp.ite (fun _ => handleSnapshot_steps h) fun _ => handleAscii_steps h

theorem receive_steps {input : Option Datagram} (hdistinct : s.sessions.Distinct)
    (h : Steps σ ⟨.receive, s, w⟩) :
    Handled σ (Srv.receive input) s w := by
  have hpc := Pc.answers_receive
  refine Wp.bind <| Srv.wp_get ?_
  split
  · exact ignored hpc h
  · exact Wp.ite (fun _ => ignored hpc h) fun _ => Wp.ite (fun _ => ignored hpc h) fun _ =>
      Wp.ite (fun _ => handleSubscribe_steps h) fun _ =>
      Wp.ite (fun _ => handleQuery_steps h) fun _ =>
      Wp.ite (fun _ => handleMove_steps hdistinct h) fun _ =>
      Wp.ite (fun _ => handleClick_steps hdistinct h) fun _ => handleText_steps h

end Statements

/-! ### Runs -/

/-- The place of a statement in the transition system. -/
def Stage.pc : Stage → Pc
  | .top => .top
  | .events => .events
  | .overflow => .overflow
  | .lease => .lease
  | .move => .move
  | .schedule => .schedule
  | .telemetry => .telemetry
  | .receive => .receive

/-- A configuration of the loop as a state of the transition system. -/
def Config.sys (c : Config) : Sys := ⟨c.stage.pc, c.server, c.world⟩

theorem statement_steps (stage : Stage) (input : Option Datagram) (s : Server) (w : World)
    (hdistinct : s.sessions.Distinct) :
    Wp (stage.statement input) (fun _ s' w' => Steps ⟨stage.pc, s, w⟩ ⟨stage.next.pc, s', w'⟩)
      s w := by
  cases stage with
  | top => exact checkGeneration_steps .refl
  | events => exact processWriterEvents_steps .refl
  | overflow => exact checkOverflow_steps .refl
  | lease => exact checkLease_steps .refl
  | move => exact tickMover_steps .refl
  | schedule => exact schedulerTick_steps .refl
  | telemetry => exact sendTelemetry_steps .refl
  | receive => exact receive_steps hdistinct .refl

/-- **Refinement**: a step of the loop is a sequence of atomic steps. -/
theorem Config.step_steps (c : Config) (a : Action) (hdistinct : c.server.sessions.Distinct) :
    Steps c.sys (c.step a).sys := by
  cases a with
  | env x => exact .single (.env ..)
  | server sched input => exact statement_steps c.stage input c.server c.world hdistinct sched

theorem Steps.distinct {x y : Sys} (h : Steps x y) (hx : x.server.sessions.Distinct) :
    y.server.sessions.Distinct := by
  induction h with
  | refl => exact hx
  | tail _ hlast ih => exact hlast.remembers.distinct ih

theorem Config.run_steps (c : Config) (actions : List Action)
    (hdistinct : c.server.sessions.Distinct) : Steps c.sys (c.run actions).sys := by
  induction actions generalizing c with
  | nil => exact .refl
  | cons a rest ih =>
    have hstep := c.step_steps a hdistinct
    exact hstep.trans (ih (c.step a) (hstep.distinct hdistinct))

/-- **Invariance**: what holds at the start and is kept by every atomic step holds in every state a
run reaches. -/
theorem Config.Reachable.invariant {P : Sys → Prop} {c : Config} (h : c.Reachable)
    (hinit : ∀ epoch peerFilter, P (init epoch peerFilter).sys)
    (hstep : ∀ x y, Step x y → P x → P y) : P c.sys := by
  obtain ⟨epoch, peerFilter, actions, rfl⟩ := h
  have hsteps := (init epoch peerFilter).run_steps actions .empty
  generalize ((init epoch peerFilter).run actions).sys = x at hsteps ⊢
  induction hsteps with
  | refl => exact hinit epoch peerFilter
  | tail _ hlast ih => exact hstep _ _ hlast ih

end UsbProxy
