import UsbProxy.Server.Loop
import UsbProxy.Server.SessionTables
import Mathlib.Logic.Relation

/-!
# The server loop as a transition system

`Step` lists what the loop can do to the server and the world in one atomic step, with the other
threads' steps between them.  Each statement of the loop refines it (`Steps/Refine`), so a
property every `Step` keeps holds along every run of the loop.
-/

namespace UsbProxy

open Bits

/-- Where the loop stands between two atomic steps. -/
inductive Pc
  | top
  /-- The generation check found a change; its reset is next. -/
  | differing
  /-- After that reset, before the second snapshot. -/
  | changed
  | events
  | handling (rest : List WriterEvent)
  | overflow
  /-- The overflow flag was set; its reset is next. -/
  | overflowed
  | lease | move | schedule | telemetry | receive
  /-- A handler with the snapshot it decides on. -/
  | deciding (e : EndpointSnapshot)
  /-- An accepted ReleaseAll, before its reset. -/
  | fencing (key : Key)
deriving DecidableEq, Repr

structure Sys where
  pc : Pc
  server : Server
  world : World

namespace World

/-- The world after `clear_synthetic_state`. -/
def cleared (w : World) : World := w.clearSyntheticState.1

/-- The generation `clear_synthetic_state` returns. -/
def clearGeneration (w : World) : ℕ := w.clearSyntheticState.2.generation

/-- The world after `enqueue_report`. -/
def after (w : World) (a : EnqueueArgs) : World := (w.enqueueReport a).1

/-- The result of `enqueue_report`. -/
def result (w : World) (a : EnqueueArgs) : EnqueueResult := (w.enqueueReport a).2

end World

namespace Server

/-- `begin_reset`, with its two readings of the clock and the generation of its clear. -/
def reset (s : Server) (attachRelease : Bool) (key : Key) (now1 now2 generation : ℕ) : Server :=
  (s.dropWork attachRelease key now1 now2).oweRelease attachRelease key generation

/-- `begin_reset(false,{});owned=false` -/
def dropped (s : Server) (now1 now2 generation : ℕ) : Server :=
  { s.reset false {} now1 now2 generation with owned := false }

/-- The server once `admit` and `accept_record` let the request in. -/
def admitted (s : Server) (r : ClickProtocol.Request) (source : Peer) (accepted : ℕ)
    (sessions : ClickSessions.Tracker) : Server :=
  { s with sessions, cache := s.cache ++ [clickRecord r source accepted] }

/-- The command is new: not in the cache, and above the high-water mark of its session. -/
def Fresh (s : Server) (key : Key) : Prop :=
  findCache s.cache key = none ∧
    ∃ (t : ClickSessions.Tracker) (now : ℕ), s.sessions = t.prune now ∧ t.Distinct ∧
      t.isStale key.session key.command = false

end Server

/-- The key of a click request. -/
def ClickProtocol.Request.key (r : ClickProtocol.Request) : Key := ⟨r.session, r.command⟩

/-- The key of a transaction request. -/
def MoveProtocol.Request.key (r : MoveProtocol.Request) : Key := ⟨r.session, r.command⟩

/-- The atomic steps of the loop and of the threads around it. -/
inductive Step : Sys → Sys → Prop
  | env (pc : Pc) (s : Server) (w : World) (x : EnvStep) : Step ⟨pc, s, w⟩ ⟨pc, s, w.env x⟩
  -- the generation check
  | check (s : Server) (w : World)
      (h : (s.track w.endpointSnapshot).trackedGeneration = 0 ∨
        w.endpointSnapshot.generation = (s.track w.endpointSnapshot).trackedGeneration) :
      Step ⟨.top, s, w⟩ ⟨.events, s.track w.endpointSnapshot, w.notes [.checked]⟩
  | differ (s : Server) (w : World)
      (h : s.trackedGeneration ≠ 0 ∧ w.endpointSnapshot.generation ≠ s.trackedGeneration) :
      Step ⟨.top, s, w⟩ ⟨.differing, s, w.notes [.checked]⟩
  | resetTop (s : Server) (w : World) (now1 now2 : ℕ) :
      Step ⟨.differing, s, w⟩ ⟨.changed, s.dropped now1 now2 w.clearGeneration, w.cleared⟩
  | recheck (s : Server) (w : World) :
      Step ⟨.changed, s, w⟩
        ⟨.events, { s with trackedGeneration := w.endpointSnapshot.generation },
          w.notes [.rechecked]⟩
  -- the writer events
  | takeEvents (s : Server) (w : World) :
      Step ⟨.events, s, w⟩ ⟨.handling w.writerEvents, s, { w with writerEvents := [] }⟩
  | eventsDone (s : Server) (w : World) : Step ⟨.handling [], s, w⟩ ⟨.overflow, s, w⟩
  | eventFailed (v : WriterEvent) (rest : List WriterEvent) (s : Server) (w : World)
      (now1 now2 : ℕ) (h : v.success = false) :
      Step ⟨.handling (v :: rest), s, w⟩
        ⟨.handling rest, (s.moveEvent v).dropped now1 now2 w.clearGeneration, w.cleared⟩
  | eventRelease (v : WriterEvent) (rest : List WriterEvent) (s : Server) (w : World)
      (h : v.success = true) (hdone : (s.moveEvent v).releaseDone v = true) :
      Step ⟨.handling (v :: rest), s, w⟩
        ⟨.handling rest, (s.moveEvent v).completeRelease,
          w.notes [.releaseCompleted (s.moveEvent v).releaseKey]⟩
  | eventClick (v : WriterEvent) (rest : List WriterEvent) (s : Server) (w : World)
      (h : v.success = true) (hdone : (s.moveEvent v).releaseDone v = false) :
      Step ⟨.handling (v :: rest), s, w⟩ ⟨.handling rest, (s.moveEvent v).clickEvent v, w⟩
  -- the overflow flag and the lease
  | overflowClear (s : Server) (w : World) (h : w.writerOverflow = false) :
      Step ⟨.overflow, s, w⟩ ⟨.lease, s, w⟩
  | overflowSet (s : Server) (w : World) (h : w.writerOverflow = true) :
      Step ⟨.overflow, s, w⟩ ⟨.overflowed, s, { w with writerOverflow := false }⟩
  | resetOverflow (s : Server) (w : World) (now1 now2 : ℕ) :
      Step ⟨.overflowed, s, w⟩ ⟨.lease, s.dropped now1 now2 w.clearGeneration, w.cleared⟩
  | leaseKept (s : Server) (w : World) : Step ⟨.lease, s, w⟩ ⟨.move, s, w⟩
  | resetLease (s : Server) (w : World) (now1 now2 : ℕ) :
      Step ⟨.lease, s, w⟩ ⟨.move, s.dropped now1 now2 w.clearGeneration, w.cleared⟩
  -- the transaction
  | tickDone (s : Server) (w : World) (e : EndpointSnapshot) (now : ℕ) (htime : now ≤ w.clock)
      (h : (s.mover.tick e now).2 = .done false) :
      Step ⟨.move, s, w⟩ ⟨.schedule, { s with mover := (s.mover.tick e now).1 }.syncMove, w⟩
  | tickEnqueue (s : Server) (w : World) (e : EndpointSnapshot) (now : ℕ) (args : EnqueueArgs)
      (htime : now ≤ w.clock) (h : (s.mover.tick e now).2 = .enqueue args)
      (hres : w.result args = .ok ∨ w.result args = .queueFull) :
      Step ⟨.move, s, w⟩
        ⟨.schedule,
          { s with mover := ((s.mover.tick e now).1.afterEnqueue (w.result args) now).1 }.syncMove,
          w.after args⟩
  | tickReset (s : Server) (w : World) (e : EndpointSnapshot) (now now1 now2 : ℕ)
      (m : MoveExecutor)
      (h : ((s.mover.tick e now).2 = .done true ∧ m = (s.mover.tick e now).1) ∨
        ∃ args result, (s.mover.tick e now).2 = .enqueue args ∧
          (result = .notReady ∨ result = .unsupported) ∧
          m = ((s.mover.tick e now).1.afterEnqueue result now).1) :
      Step ⟨.move, s, w⟩
        ⟨.schedule, ({ s with mover := m }.syncMove.reset false {} now1 now2
          w.clearGeneration).syncMove, w.cleared⟩
  -- the click scheduler
  | scheduleIdle (s : Server) (w : World) : Step ⟨.schedule, s, w⟩ ⟨.telemetry, s, w⟩
  | enqueueRelease (s : Server) (w : World) (hp : s.releasePending = true)
      (hi : s.releaseInflight = false)
      (hres : (w.enqueueFinalRelease s.trackedGeneration s.releaseKey).2 = .ok) :
      Step ⟨.schedule, s, w⟩
        ⟨.telemetry, { s with releaseInflight := true },
          (w.enqueueFinalRelease s.trackedGeneration s.releaseKey).1⟩
  | resetSchedule (s : Server) (w : World) (now1 now2 : ℕ) (hp : s.releasePending = false)
      (hw : s.work ≠ []) :
      Step ⟨.schedule, s, w⟩ ⟨.telemetry, s.reset false {} now1 now2 w.clearGeneration, w.cleared⟩
  | pressRefused (s : Server) (w : World) (click : ClickWork) (rest : List ClickWork)
      (hp : s.releasePending = false) (hw : s.work = click :: rest)
      (hphase : click.phase = .awaitPress) :
      Step ⟨.schedule, s, w⟩ ⟨.telemetry, s.finishFront .buttonActive, w⟩
  | enqueuePress (s : Server) (w : World) (click : ClickWork) (rest : List ClickWork)
      (e : EndpointSnapshot) (hp : s.releasePending = false) (hw : s.work = click :: rest)
      (hphase : click.phase = .awaitPress) (hdue : click.dueNs ≤ w.clock)
      (he : e.ready = true ∧ e.generation = s.trackedGeneration ∧
        (e.physical ||| s.persistentButtons ||| s.scheduledButtons) &&&
          buttonBit click.button = 0)
      (hres : w.result (s.pressArgs click) = .ok) :
      Step ⟨.schedule, s, w⟩ ⟨.telemetry, s.pressed click, w.after (s.pressArgs click)⟩
  | enqueueClickRelease (s : Server) (w : World) (click : ClickWork) (rest : List ClickWork)
      (hp : s.releasePending = false) (hw : s.work = click :: rest)
      (hphase : click.phase = .holding ∨ click.phase = .awaitRelease) (hdue : click.dueNs ≤ w.clock)
      (hres : w.result (s.releaseArgs click) = .ok) :
      Step ⟨.schedule, s, w⟩ ⟨.telemetry, s.released click, w.after (s.releaseArgs click)⟩
  | releaseWaits (s : Server) (w : World) (click : ClickWork) (rest : List ClickWork)
      (hp : s.releasePending = false) (hw : s.work = click :: rest)
      (hphase : click.phase = .holding ∨ click.phase = .awaitRelease) :
      Step ⟨.schedule, s, w⟩ ⟨.telemetry, s.setFront { click with phase := .awaitRelease }, w⟩
  -- telemetry
  | silent (s : Server) (w : World) : Step ⟨.telemetry, s, w⟩ ⟨.receive, s, w⟩
  | report (s : Server) (w : World) (e : EndpointSnapshot) (now : ℕ) :
      Step ⟨.telemetry, s, w⟩ ⟨.receive, s.report now (s.telemetry e), w⟩
  -- datagrams without effect on commands
  | ignore (pc : Pc) (s : Server) (w : World) (h : pc = .receive ∨ ∃ e, pc = .deciding e) :
      Step ⟨pc, s, w⟩ ⟨.top, s, w⟩
  | answer (pc : Pc) (s : Server) (w : World) (dest : Peer) (p : Packet)
      (h : pc = .receive ∨ ∃ e, pc = .deciding e) : Step ⟨pc, s, w⟩ ⟨.top, s.send dest p, w⟩
  | subscribe (s : Server) (w : World) (source : Peer) (data : List Byte) (now : ℕ) :
      Step ⟨.receive, s, w⟩ ⟨.top, s.subscribe source data now, w⟩
  | sample (s : Server) (w : World) :
      Step ⟨.receive, s, w⟩ ⟨.deciding w.endpointSnapshot, s, w.notes [.sampled]⟩
  -- sessions and cache
  | prune (pc : Pc) (s : Server) (w : World) (now : ℕ)
      (h : pc = .receive ∨ ∃ e, pc = .deciding e) :
      Step ⟨pc, s, w⟩ ⟨pc, s.pruneSessions now, w.notes (s.sessions.pruneMarks now)⟩
  | evict (s : Server) (w : World) (e : EndpointSnapshot) :
      Step ⟨.deciding e, s, w⟩ ⟨.deciding e, s.removeOldCache, w.notes s.evictMarks⟩
  -- UPM1
  | retryMove (s : Server) (w : World) (source : Peer) (r : MoveProtocol.Request)
      (prior : CachedCommand) (now : ℕ) (hfind : findCache s.cache r.key = some prior)
      (hmove : prior.movement = true) (hsame : MoveProtocol.same prior.moveRequest r = true) :
      Step ⟨.receive, s, w⟩
        ⟨.top, ((s.controlMove source r prior).renew source now).sendCached
          { prior with peer := source } prior.status, w.notes (s.controlMarks r)⟩
  | startMove (s : Server) (w : World) (source : Peer) (r : MoveProtocol.Request)
      (e : EndpointSnapshot) (sessions : ClickSessions.Tracker) (forgot : List Mark)
      (now t1 t2 t3 : ℕ) (hr : ∃ data, MoveProtocol.parse data = some r)
      (hfresh : s.Fresh r.key) (hverdict : s.moveVerdict e r = none)
      (hroom : s.cache.length < maxCacheRecords)
      (hadmitted : s.sessions.admitPruned r.session now false s.sessionProtected =
        some (sessions, forgot)) :
      Step ⟨.deciding e, s, w⟩
        ⟨.top, s.startMove source r e sessions t1 t2 t3, w.notes (s.moveMarks r e ++ forgot)⟩
  -- UPC1
  | retryClick (s : Server) (w : World) (source : Peer) (r : ClickProtocol.Request)
      (prior : CachedCommand) (now : ℕ) (hfind : findCache s.cache r.key = some prior)
      (hmove : prior.movement = false) :
      Step ⟨.receive, s, w⟩ ⟨.top, (s.renew source now).repeatClick source prior, w⟩
  | pushClick (s : Server) (w : World) (source : Peer) (r : ClickProtocol.Request)
      (e : EndpointSnapshot) (sessions : ClickSessions.Tracker) (forgot : List Mark)
      (now t1 t2 : ℕ) (hr : ∃ data, ClickProtocol.parse data = some r) (hfresh : s.Fresh r.key)
      (hverdict : s.scheduleVerdict e r = none) (hroom : s.cache.length < maxCacheRecords)
      (hadmitted : s.sessions.admitPruned r.session now false s.sessionProtected =
        some (sessions, forgot)) :
      Step ⟨.deciding e, s, w⟩
        ⟨.top, (s.admitted r source r.count sessions).pushClick source r e
          (Server.clickRecord r source r.count) now t1 t2, w.notes (s.scheduleMarks r ++ forgot)⟩
  | recordRelease (s : Server) (w : World) (source : Peer) (r : ClickProtocol.Request)
      (e : EndpointSnapshot) (sessions : ClickSessions.Tracker) (forgot : List Mark) (now t : ℕ)
      (hr : ∃ data, ClickProtocol.parse data = some r) (hfresh : s.Fresh r.key)
      (hroom : s.cache.length < maxCacheRecords)
      (hadmitted : s.sessions.admitPruned r.session now true s.sessionProtected =
        some (sessions, forgot)) :
      Step ⟨.deciding e, s, w⟩
        ⟨.fencing r.key, (s.admitted r source 0 sessions).recordRelease source r
          (Server.clickRecord r source 0) now t, w.notes (s.releaseMarks r ++ forgot)⟩
  | fence (s : Server) (w : World) (key : Key) (now1 now2 : ℕ) :
      Step ⟨.fencing key, s, w⟩ ⟨.top, s.reset true key now1 now2 w.clearGeneration, w.cleared⟩
  -- UPX1
  | pruneReplay (s : Server) (w : World) (now : ℕ) :
      Step ⟨.receive, s, w⟩
        ⟨.receive, s.pruneReplay now, w.notes (s.movementReplay.pruneMarks now)⟩
  | heartbeat (s : Server) (w : World) (e : EndpointSnapshot) (source : Peer)
      (sequence : BitVec 32) (now : ℕ) (hactive : s.mover.active = true)
      (hnew : s.movementReplay.isStale source sequence = false) :
      Step ⟨.deciding e, s, w⟩
        ⟨.top, s.renew source now, w.notes [.honoured source sequence true]⟩
  | applySnapshot (s : Server) (w w' : World) (e : EndpointSnapshot) (source : Peer)
      (sequence : BitVec 32) (command : MouseCommand) (next : Mask) (packetNow t : ℕ)
      (hready : e.ready = true) (hmover : s.mover.active = false)
      (hnew : s.movementReplay.isStale source sequence = false)
      (hargs : match s.snapshotArgs command next with
        | none => w' = w
        | some args => w.result args = .ok ∧ w' = w.after args) :
      Step ⟨.deciding e, s, w⟩
        ⟨.top, { (s.applySnapshot source sequence next packetNow).renew source t with
            trackedGeneration := e.generation },
          w'.notes (s.snapshotMarks source sequence next packetNow)⟩
  | refuseReport (s : Server) (w : World) (e : EndpointSnapshot) (args : EnqueueArgs)
      (hres : w.result args ≠ .ok) : Step ⟨.deciding e, s, w⟩ ⟨.top, s, w.after args⟩
  -- ASCII
  | asciiReset (s : Server) (w : World) (source : Peer) (now1 now2 t : ℕ) :
      Step ⟨.receive, s, w⟩
        ⟨.top, ((s.reset false {} now1 now2 w.clearGeneration).renew source t).send source
          (.text "ok"), w.cleared⟩
  | asciiClick (s : Server) (w : World) (e : EndpointSnapshot) (source : Peer) (button t t' : ℕ)
      (hready : e.ready = true) (hmover : s.mover.active = false)
      (hbutton : 1 ≤ button ∧ button ≤ 8)
      (hheld : (e.physical ||| s.persistentButtons) &&& buttonBit button = 0)
      (hroom : s.work.length < maxClickCommands) :
      Step ⟨.deciding e, s, w⟩
        ⟨.top, { { s with work := s.work ++ [Server.asciiClick e button t] }.renew source t' with
            trackedGeneration := e.generation }.send source (.text "ok"),
          w.notes [.adopted, .accepted (buttonBit button)]⟩
  | asciiReport (s : Server) (w : World) (e : EndpointSnapshot) (source : Peer)
      (command : MouseCommand) (next : Mask) (t : ℕ) (hready : e.ready = true)
      (hmover : s.mover.active = false) (hres : w.result (s.asciiArgs command next) = .ok) :
      Step ⟨.deciding e, s, w⟩
        ⟨.top, { { s with persistentButtons := next }.renew source t with
            trackedGeneration := e.generation }.send source (.text "ok"),
          (w.after (s.asciiArgs command next)).notes [.adopted, .accepted next]⟩

/-- Any number of atomic steps. -/
abbrev Steps : Sys → Sys → Prop := Relation.ReflTransGen Step

end UsbProxy
