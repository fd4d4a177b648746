import UsbProxy.Server.Refine

/-!
# The controller lease

While a controller owns the server, a datagram from any other source changes nothing but the
telemetry subscription.  Without an owner nothing is held, queued or running.
-/

namespace UsbProxy

open Client

/-! ### Datagrams from others -/

/-- Only the socket and the telemetry subscription differ. -/
def Server.SameControl (s s' : Server) : Prop :=
  ∃ sent subscription subscriber lastTelemetry,
    s' = { s with sent, subscription, subscriber, lastTelemetry }

namespace Server.SameControl

variable {s : Server}

theorem refl (s : Server) : s.SameControl s :=
  ⟨s.sent, s.subscription, s.subscriber, s.lastTelemetry, rfl⟩

theorem send (s : Server) (dest : Peer) (p : Packet) : s.SameControl (s.send dest p) :=
  ⟨_, s.subscription, s.subscriber, s.lastTelemetry, rfl⟩

theorem subscribe (s : Server) (source : Peer) (data : List Bits.Byte) (now : ℕ) :
    s.SameControl (s.subscribe source data now) := by
  obtain ⟨_, _, _, h⟩ := s.subscribe_eq source data now
  exact ⟨s.sent, _, _, _, h⟩

end Server.SameControl

/-- `x` run from `s` reads the mixer only, and leaves the control state of the server alone. -/
abbrev Ineffective (x : Srv Unit) (s : Server) : Prop :=
  Passive World.env x (fun _ s' => s.SameControl s') s

section Foreign

variable {s : Server} {d : Datagram}

theorem handleSubscribe_ineffective : Ineffective (Srv.handleSubscribe d) s :=
  Passive.bind <| Passive.read fun _ => Passive.bind <| Passive.getPriv <|
    Passive.ite (fun _ => Passive.update (.send _ _ _)) fun _ => Passive.bind <|
      Passive.read fun _ => Passive.update (.subscribe _ _ _ _)

theorem handleQuery_ineffective : Ineffective (Srv.handleQuery d) s := by
  unfold Srv.handleQuery
  split
  · exact Passive.pure (.refl s)
  · exact Passive.bind <| Passive.read fun _ => Passive.update (.send _ _ _)

theorem rejectMove_ineffective {r : MoveProtocol.Request} {status : MoveProtocol.Status} :
    Ineffective (Srv.rejectMove d r status) s :=
  Passive.bind <| Passive.read fun _ => Passive.update (.send _ _ _)

theorem reply_ineffective (text : String) : Ineffective (Srv.reply d text) s := by
  unfold Srv.reply
  exact Passive.update (Server.SameControl.send _ _ _)

variable (howned : s.owned = true) (hsource : s.owner ≠ d.source)

include howned hsource

theorem handleMove_foreign : Ineffective (Srv.handleMove d) s := by
  unfold Srv.handleMove
  split
  · exact Passive.pure (.refl s)
  · exact Passive.bind <| Passive.getPriv <| Passive.ite (fun _ => rejectMove_ineffective)
      fun hmine => absurd ⟨howned, hsource⟩ hmine

theorem handleClick_foreign : Ineffective (Srv.handleClick d) s := by
  unfold Srv.handleClick
  split
  · exact Passive.update (Server.SameControl.send _ _ _)
  · exact Passive.bind <| Passive.getPriv <| Passive.ite
      (fun _ => Passive.update (Server.SameControl.send _ _ _))
      fun hmine => absurd ⟨howned, hsource⟩ hmine

theorem handleText_foreign : Ineffective (Srv.handleText d) s :=
  Passive.bind <| Passive.getPriv <| Passive.ite
    (fun _ => Passive.bind <| Passive.read fun _ => reply_ineffective _)
    fun _ => Passive.ite (fun _ => reply_ineffective "busy")
      fun hmine => absurd ⟨howned, hsource⟩ hmine

theorem receive_foreign : Ineffective (Srv.receive (some d)) s :=
  Passive.bind <| Passive.getPriv <| Passive.ite (fun _ => Passive.pure (.refl s)) fun _ =>
    Passive.ite (fun _ => Passive.pure (.refl s)) fun _ =>
    Passive.ite (fun _ => handleSubscribe_ineffective) fun _ =>
    Passive.ite (fun _ => handleQuery_ineffective) fun _ =>
    Passive.ite (fun _ => handleMove_foreign howned hsource) fun _ =>
    Passive.ite (fun _ => handleClick_foreign howned hsource) fun _ =>
      handleText_foreign howned hsource

end Foreign

/-! ### Without an owner -/

/-- Nothing is held, queued or running. -/
structure Server.Idle (s : Server) : Prop where
  persistent : s.persistentButtons = 0
  scheduled : s.scheduledButtons = 0
  work : s.work = []
  mover : s.mover.active = false

namespace Server

variable {s : Server}

theorem Idle.syncMove (h : s.Idle) : s.syncMove.Idle := by
  obtain ⟨_, _, hs⟩ := s.syncMove_eq
  rw [hs]
  exact ⟨h.persistent, h.scheduled, h.work, h.mover⟩

/-- `begin_reset` leaves nothing. -/
theorem reset_idle (s : Server) (attachRelease : Bool) (key : Key) (now1 now2 generation : ℕ) :
    (s.reset attachRelease key now1 now2 generation).Idle := by
  obtain ⟨_, _, h⟩ := s.reset_eq attachRelease key now1 now2 generation
  rw [h]
  exact ⟨rfl, rfl, rfl, MoveExecutor.stop_active _ _ rfl⟩

theorem dropped_idle (s : Server) (now1 now2 generation : ℕ) :
    (s.dropped now1 now2 generation).Idle := by
  obtain ⟨h1, h2, h3, h4⟩ := s.reset_idle false {} now1 now2 generation
  exact ⟨h1, h2, h3, h4⟩

end Server

namespace MoveExecutor

variable {m : MoveExecutor}

theorem event_inactive (h : m.active = false) (v : WriterEvent) : m.event v = m := by
  simp [event, owns, h]

theorem tick_inactive (h : m.active = false) (e : EndpointSnapshot) (now : ℕ) :
    m.tick e now = (m, .done false) := by
  simp [tick, h]

end MoveExecutor

/-- An unowned server is idle. -/
def Server.Free (s : Server) : Prop := s.owned = false → s.Idle

theorem Server.Free.congr {s s' : Server} (h : s.Free) (howned : s'.owned = s.owned)
    (hpersistent : s'.persistentButtons = s.persistentButtons)
    (hscheduled : s'.scheduledButtons = s.scheduledButtons) (hwork : s'.work = s.work)
    (hmover : s'.mover = s.mover) : s'.Free := fun hfree =>
  have hidle := h (howned ▸ hfree)
  ⟨hpersistent.trans hidle.persistent, hscheduled.trans hidle.scheduled, hwork.trans hidle.work,
    hmover ▸ hidle.mover⟩

/-- A server with work or a running transaction is owned. -/
theorem Server.Free.owned_of_work {s : Server} {click : ClickWork} {rest : List ClickWork}
    (h : s.Free) (hwork : s.work = click :: rest) : s.owned ≠ false := fun hfree => by
  have := (h hfree).work
  rw [hwork] at this
  cases this

theorem Server.Free.mover_event {s : Server} (h : s.Free) (v : WriterEvent) :
    (s.moveEvent v).Free := by
  obtain ⟨_, _, hs⟩ := s.moveEvent_eq v
  rw [hs]
  intro howned
  have hidle := h howned
  exact ⟨hidle.persistent, hidle.scheduled, hidle.work,
    (congrArg _ (MoveExecutor.event_inactive hidle.mover v)).trans hidle.mover⟩

theorem Server.Free.syncMove {s : Server} (h : s.Free) : s.syncMove.Free := by
  obtain ⟨_, _, hs⟩ := s.syncMove_eq
  rw [hs]
  exact h.congr rfl rfl rfl rfl rfl

/-- The tick of an inactive executor changes nothing. -/
theorem Server.Free.mover {s : Server} {m : MoveExecutor} (h : s.Free)
    (hm : s.mover.active = false → m = s.mover) : { s with mover := m }.Free := fun hfree =>
  have hidle := h hfree
  ⟨hidle.persistent, hidle.scheduled, hidle.work, (hm hidle.mover) ▸ hidle.mover⟩

theorem Step.free {x y : Sys} (h : Step x y) (hx : x.server.Free) : y.server.Free := by
  cases h with
  | env | differ | recheck | takeEvents | eventsDone | overflowClear | overflowSet | leaseKept
    | scheduleIdle | enqueueRelease | silent | ignore | answer | sample | prune | evict
    | pruneReplay | refuseReport => exact hx.congr rfl rfl rfl rfl rfl
  | check s w h =>
    dsimp only at hx ⊢
    unfold Server.track
    split
    · exact hx.congr rfl rfl rfl rfl rfl
    · exact hx
  | resetTop | resetOverflow | resetLease | eventFailed => exact fun _ => Server.dropped_idle ..
  | eventRelease v rest s w h hdone =>
    obtain ⟨_, _, hs⟩ := (s.moveEvent v).completeRelease_eq
    rw [hs]
    exact (hx.mover_event v).congr rfl rfl rfl rfl rfl
  | eventClick v rest s w h hdone =>
    have hevent := hx.mover_event v
    generalize s.moveEvent v = s' at hevent hdone ⊢
    intro howned
    have hfree : s'.owned = false := by
      obtain ⟨_, _, _, _, _, hs⟩ := s'.clickEvent_eq v
      rw [hs] at howned
      exact howned
    have hkeep : s'.clickEvent v = s' := by
      unfold Server.clickEvent
      rw [(hevent hfree).work]
    rw [hkeep] at howned ⊢
    exact hevent howned
  | tickDone s w e now htime h =>
    exact (hx.mover fun hactive => by rw [MoveExecutor.tick_inactive hactive]).syncMove
  | tickEnqueue s w e now args htime h hres =>
    refine (hx.mover fun hactive => ?_).syncMove
    rw [MoveExecutor.tick_inactive hactive] at h
    cases h
  | tickReset s w e now now1 now2 m h =>
    have hreset := ({ s with mover := m }.syncMove).reset_idle false {} now1 now2
      w.clearGeneration
    dsimp only
    exact fun _ => hreset.syncMove
  | resetSchedule | fence => exact fun _ => Server.reset_idle ..
  | pressRefused s w click rest hp hw hphase =>
    obtain ⟨_, _, _, hs⟩ := s.finishFront_eq .buttonActive
    rw [hs]
    exact fun howned => absurd howned (hx.owned_of_work hw)
  | enqueuePress s w click rest e hp hw hphase hdue he hres =>
    exact fun howned => absurd howned (hx.owned_of_work hw)
  | enqueueClickRelease s w click rest hp hw hphase hdue hres =>
    exact fun howned => absurd howned (hx.owned_of_work hw)
  | releaseWaits s w click rest hp hw hphase =>
    exact fun howned => absurd howned (hx.owned_of_work hw)
  | report s w e now =>
    obtain ⟨_, _, _, _, hs⟩ := s.report_eq now (s.telemetry e)
    rw [hs]
    exact hx.congr rfl rfl rfl rfl rfl
  | subscribe s w source data now =>
    obtain ⟨_, _, _, hs⟩ := s.subscribe_eq source data now
    rw [hs]
    exact hx.congr rfl rfl rfl rfl rfl
  | retryMove s w source r prior now hfind hmove hsame =>
    obtain ⟨_, hs⟩ := ((s.controlMove source r prior).renew source now).sendCached_eq
      { prior with peer := source } prior.status
    rw [hs]
    exact fun howned => by cases howned
  | startMove s w source r e sessions forgot now t1 t2 t3 hr hfresh hverdict hroom hadmitted =>
    obtain ⟨_, hs⟩ := s.startMove_eq source r e sessions t1 t2 t3
    rw [hs]
    exact fun howned => by cases howned
  | retryClick | heartbeat | applySnapshot | asciiReset | asciiClick | asciiReport =>
    exact fun howned => by cases howned
  | pushClick s w source r e sessions forgot now t1 t2 hr hfresh hverdict hroom hadmitted =>
    obtain ⟨_, hs⟩ := (s.admitted r source r.count sessions).pushClick_eq source r e
      (Server.clickRecord r source r.count) now t1 t2
    rw [hs]
    exact fun howned => by cases howned
  | recordRelease s w source r e sessions forgot now t hr hfresh hroom hadmitted =>
    obtain ⟨_, hs⟩ := (s.admitted r source 0 sessions).recordRelease_eq source r
      (Server.clickRecord r source 0) now t
    rw [hs]
    exact fun howned => by cases howned

theorem Config.Reachable.free {c : Config} (hc : c.Reachable) : c.server.Free :=
  hc.invariant (P := fun x => x.server.Free) (fun _ _ _ => ⟨rfl, rfl, rfl, rfl⟩)
    fun _ _ h hx => h.free hx

/-- What handling a datagram from a source that is not the owner leaves: the world is as the other
threads' steps before its readings made it. -/
structure Config.LeftAlone (c c' : Config) (sched : List (List EnvStep)) : Prop where
  world : ∃ n, c'.world = envRun World.env c.world (sched.take n).flatten
  server : c.server.SameControl c'.server

/-- **The lease is exclusive and leaves nothing behind.** -/
theorem lease_exclusive {c : Config} (hc : c.Reachable) :
    (c.stage = .receive → c.server.owned = true → ∀ (d : Datagram) (sched : List (List EnvStep)),
        d.source ≠ c.server.owner → c.LeftAlone (c.step (.server sched (some d))) sched) ∧
      (c.stage = .top → c.server.owned = false →
        c.server.persistentButtons = 0 ∧ c.server.work = [] ∧ c.server.mover.active = false) := by
  refine ⟨fun hstage howned d sched hsource => ?_, fun _ hfree => ?_⟩
  · obtain ⟨n, hworld, -, hserver⟩ :=
      receive_foreign howned (Ne.symm hsource) c.world sched
    simp only [Config.step, hstage]
    exact ⟨⟨n, hworld⟩, hserver⟩
  · have hidle := hc.free hfree
    exact ⟨hidle.persistent, hidle.work, hidle.mover⟩

/-- A controller holds the left button, and the loop waits for its next datagram. -/
def heldLeft : Config :=
  (Config.init 1 none).run (Action.mouse ++ Action.iteration (some (.upx ⟨1, 1⟩ 1 1)) ++
    List.replicate 7 (.server [] none))

theorem lease_exclusive_otherRelease :
    heldLeft.LeftAlone (heldLeft.step (.server [] (some (.text ⟨2, 2⟩ "+release")))) [] :=
  (lease_exclusive ⟨1, none, _, rfl⟩).1 (by decide +kernel) (by decide +kernel) _ _
    (by decide +kernel)

end UsbProxy
