import UsbProxy.Lib.Client
import UsbProxy.Protocol.Click
import UsbProxy.Server.Executor
import UsbProxy.Server.SessionTracker
import UsbProxy.Server.UpxReplay

/-!
# The state of the UDP server (`udp_server.cpp`)

The locals of `server_loop` and those of its lambdas that touch no shared state.  `sent` is the
socket: the packets sent so far, newest first.
-/

namespace UsbProxy

open Bits

def maxClickCommands : ℕ := 64
def maxCacheRecords : ℕ := 256

structure CachedCommand where
  key : Key := {}
  request : ClickProtocol.Request := {}
  button : ℕ := 0
  accepted : ℕ := 0
  completed : ℕ := 0
  status : ClickProtocol.Status := .accepted
  terminal : Bool := false
  peer : Peer := {}
  movement : Bool := false
  moveRequest : MoveProtocol.Request := {}
  moveAck : MoveProtocol.Ack := {}
deriving DecidableEq, Repr

inductive ClickPhase
  | awaitPress | pressInflight | holding | awaitRelease | releaseInflight
deriving DecidableEq, Repr

structure ClickWork where
  key : Key := {}
  button : ℕ := 0
  count : ℕ := 0
  pressUs : ℕ := 0
  intervalUs : ℕ := 0
  index : ℕ := 0
  pressWrittenNs : ℕ := 0
  dueNs : ℕ := 0
  phase : ClickPhase := .awaitPress
  version : ℕ := ClickProtocol.version1
  blocked : Bool := false
  binary : Bool := false
deriving DecidableEq, Repr

/-- `proxy_telemetry::Snapshot` -/
structure Telemetry where
  ready : Bool := false
  physical : Mask := 0
  persistent : Mask := 0
  scheduled : Mask := 0
  xmin : ℤ := 0
  xmax : ℤ := 0
  ymin : ℤ := 0
  ymax : ℤ := 0
  physicalDx : ℤ := 0
  physicalDy : ℤ := 0
  accepted : ℕ := 0
  completed : ℕ := 0
  active : ℕ := 0
  queued : ℕ := 0
  generation : ℕ := 0
  pollUs : ℕ := 0
  physicalAgeUs : ℕ := 0xffffffff
  physicalReceived : ℕ := 0
  physicalSubmitted : ℕ := 0
  outputQueue : ℕ := 0
  syntheticPending : ℕ := 0
  superseded : ℕ := 0
  writerFailures : ℕ := 0
  snapshotNs : ℕ := 0
  cumulativeX : ℤ := 0
  cumulativeY : ℤ := 0
deriving DecidableEq, Repr

/-- `Snapshot::operator==`: the sample time and the age of the last motion do not count. -/
def Telemetry.same (a b : Telemetry) : Bool :=
  { a with snapshotNs := 0, physicalAgeUs := 0 } == { b with snapshotNs := 0, physicalAgeUs := 0 }

/-- `proxy_telemetry::Subscription` -/
structure Subscription where
  client : ℕ := 0
  token : ℕ := 0
  lastNs : ℕ := 0
  sequence : ℕ := 0
  version : ℕ := 0
deriving DecidableEq, Repr

def Subscription.alive (s : Subscription) (now : ℕ) : Bool :=
  s.client != 0 && decide (s.lastNs ≤ now) && decide (now - s.lastNs ≤ 100000000)

/-- `Subscription::accept`; `none` when the packet is refused. -/
def Subscription.accept (s : Subscription) (p : List Byte) (now : ℕ) : Option Subscription :=
  if p.length ≠ 24 ∨ get32 p 4 ≠ 0 ∨ get64 p 8 = 0 ∨ get64 p 16 = 0 then none
  else if get64 p 8 = s.client ∧ now - s.lastNs ≤ 100000000 ∧ get64 p 16 ≤ s.token then none
  else
    some { client := get64 p 8, token := get64 p 16, lastNs := now
           sequence := if get64 p 8 ≠ s.client then 0 else s.sequence
           version := byteAt p 3 - 48 }

/-- A packet of the server, before its encoding. -/
inductive Packet
  | upa (ack : ClickProtocol.Ack)
  | upr (ack : MoveProtocol.Ack)
  | upi (capabilities : MoveProtocol.Capabilities)
  | upt (version client epoch token sequence : ℕ) (telemetry : Telemetry)
  | text (reply : String)
deriving DecidableEq, Repr

structure Server where
  epoch : ℕ := 1
  /-- `USB_PROXY_PEER` -/
  peerFilter : Option ℕ := none
  persistentButtons : Mask := 0
  scheduledButtons : Mask := 0
  trackedGeneration : ℕ := 0
  owner : Peer := {}
  owned : Bool := false
  last : ℕ := 0
  cache : List CachedCommand := []
  work : List ClickWork := []
  mover : MoveExecutor := {}
  sessions : ClickSessions.Tracker := {}
  acceptedTotal : ℕ := 0
  completedTotal : ℕ := 0
  movementReplay : UpxReplay.Tracker := []
  releasePending : Bool := false
  releaseInflight : Bool := false
  releaseKey : Key := {}
  subscription : Subscription := {}
  previousTelemetry : Telemetry := {}
  subscriber : Peer := {}
  lastTelemetry : ℕ := 0
  sent : List (Peer × Packet) := []
deriving DecidableEq, Repr

/-- `find_cache` -/
def findCache (cache : List CachedCommand) (key : Key) : Option CachedCommand :=
  cache.find? fun c => c.key = key

/-- Change the record `find_cache` points to. -/
def updateCache (key : Key) (f : CachedCommand → CachedCommand) :
    List CachedCommand → List CachedCommand
  | [] => []
  | c :: rest => if c.key = key then f c :: rest else c :: updateCache key f rest

/-- The loop of `remove_old_cache`: what stays and the keys evicted, newest first. -/
def evictLoop : ℕ → List CachedCommand → List CachedCommand × List Key
  | 0, cache => (cache, [])
  | fuel + 1, cache =>
    if cache.length < maxCacheRecords then (cache, [])
    else
      match cache.find? (·.terminal) with
      | none => (cache, [])
      | some c =>
        let r := evictLoop fuel (cache.eraseP (·.terminal))
        (r.1, r.2 ++ [c.key])

namespace Server

/-- `send_packet` -/
def send (s : Server) (dest : Peer) (p : Packet) : Server := { s with sent := (dest, p) :: s.sent }

def depth (s : Server) : ℕ := min 65535 (s.work.length + if s.releasePending then 1 else 0)

/-- `send_ack` -/
def sendAck (s : Server) (dest : Peer) (key : Key) (button : ℕ) (status : ClickProtocol.Status)
    (accepted completed version : ℕ) : Server :=
  s.send dest (.upa {
    status, button, session := key.session, command := key.command, serverEpoch := s.epoch
    accepted, completed, queueDepth := s.depth, version })

/-- `send_cached` -/
def sendCached (s : Server) (c : CachedCommand) (status : ClickProtocol.Status) : Server :=
  if c.movement then s.send c.peer (.upr c.moveAck)
  else s.sendAck c.peer c.key c.button status c.accepted c.completed c.request.version

/-- `terminal` -/
def terminal (s : Server) (key : Key) (status : ClickProtocol.Status) : Server :=
  match findCache s.cache key with
  | none => s
  | some c =>
    let c := { c with status, terminal := true }
    { s with cache := updateCache key (fun _ => c) s.cache }.sendCached c status

/-- `sync_move` -/
def syncMove (s : Server) : Server :=
  let a := s.mover.ack
  if a.session = 0 then s
  else
    match findCache s.cache s.mover.key with
    | none => s
    | some c =>
      let c' := { c with moveAck := a, terminal := a.status.terminal }
      let s := { s with cache := updateCache s.mover.key (fun _ => c') s.cache }
      if c.moveAck.packet != a.packet then s.sendCached c' c'.status else s

/-- `mover.stop` -/
def stopMover (s : Server) (reason : MoveProtocol.Status) (now : ℕ) : Server :=
  { s with mover := s.mover.stop reason now }

/-- The loop of `cancel_work`. -/
def cancelLoop : List ClickWork → Server → Server
  | [], s => s
  | click :: rest, s =>
    let s := { s with work := rest }
    cancelLoop rest (if click.binary then s.terminal click.key .cancelled else s)

/-- `cancel_work` -/
def cancelWork (s : Server) : Server := { cancelLoop s.work s with scheduledButtons := 0 }

/-- `remove_old_cache` -/
def removeOldCache (s : Server) : Server :=
  { s with cache := (evictLoop s.cache.length s.cache).1 }

def evictMarks (s : Server) : List Mark := (evictLoop s.cache.length s.cache).2.map .evicted

/-- `session_protected` -/
def sessionProtected (s : Server) (session : ℕ) : Bool :=
  s.cache.any fun c => c.key.session == session && !c.terminal

/-- `finish_front` -/
def finishFront (s : Server) (status : ClickProtocol.Status) : Server :=
  match s.work with
  | [] => s
  | click :: rest =>
    let s := { s with work := rest, scheduledButtons := 0 }
    if click.binary then s.terminal click.key status else s

/-- Change the click in front. -/
def setFront (s : Server) (click : ClickWork) : Server := { s with work := click :: s.work.tail }

/-- `owner=from;owned=true;last=Clock::now()` -/
def renew (s : Server) (peer : Peer) (now : ℕ) : Server :=
  { s with owner := peer, owned := true, last := now }

/-- A ReleaseAll with another key takes the place of the one still owed. -/
def replaceRelease (s : Server) (attachRelease : Bool) (key : Key) : Server :=
  if attachRelease ∧ s.releaseKey.session ≠ 0 ∧ s.releaseKey ≠ key then
    s.terminal s.releaseKey .cancelled
  else s

/-- The part of `begin_reset` before its `clear_synthetic_state`; `now1` and `now2` are its two
readings of the clock. -/
def dropWork (s : Server) (attachRelease : Bool) (key : Key) (now1 now2 : ℕ) : Server :=
  let s := ((s.stopMover .cancelled now1).syncMove).replaceRelease attachRelease key
  let s := ((s.stopMover .cancelled now2).syncMove).cancelWork
  { s with persistentButtons := 0, scheduledButtons := 0 }

/-- The part of `begin_reset` after its `clear_synthetic_state`. -/
def oweRelease (s : Server) (attachRelease : Bool) (key : Key) (generation : ℕ) : Server :=
  { s with
    trackedGeneration := generation, releaseInflight := false, releasePending := true
    releaseKey := if attachRelease then key else s.releaseKey }

/-- A saturating due time in nanoseconds. -/
def dueAt (base delay : ℕ) : ℕ := if 2 ^ 64 - 1 - delay < base then 2 ^ 64 - 1 else base + delay

/-- A successful `RELEASE_ALL` event while its completion is awaited. -/
def releaseDone (s : Server) (e : WriterEvent) : Bool :=
  e.kind == .releaseAll && s.releaseInflight && e.session == s.releaseKey.session &&
    e.command == s.releaseKey.command

/-- The release obligation is met. -/
def completeRelease (s : Server) : Server :=
  let s := { s with releaseInflight := false, releasePending := false }
  let s := if s.releaseKey.session ≠ 0 then s.terminal s.releaseKey .completed else s
  { s with releaseKey := {} }

/-- A successful event for the click in front. -/
def clickEvent (s : Server) (e : WriterEvent) : Server :=
  match s.work with
  | [] => s
  | click :: _ =>
    if e.session ≠ click.key.session ∨ e.command ≠ click.key.command ∨ e.index ≠ click.index then s
    else if e.kind = .clickPress ∧ click.phase = .pressInflight then
      s.setFront { click with
        pressWrittenNs := e.writtenNs, blocked := e.blocked
        dueNs := dueAt e.writtenNs (if e.blocked then 0 else click.pressUs * 1000)
        phase := if e.blocked then .awaitRelease else .holding }
    else if e.kind = .clickRelease ∧ click.phase = .releaseInflight then
      if click.blocked ∨ e.finalButtons &&& buttonBit click.button ≠ 0 then
        s.finishFront .buttonActive
      else
        let click := { click with index := click.index + 1 }
        let s := { s.setFront click with
          completedTotal := s.completedTotal + 1
          cache := updateCache click.key (fun c => { c with completed := click.index }) s.cache }
        if click.count ≤ click.index then s.finishFront .completed
        else
          let base := if click.version = ClickProtocol.version2 then e.writtenNs
            else click.pressWrittenNs
          s.setFront { click with
            phase := .awaitPress, blocked := false
            dueNs := dueAt base (click.intervalUs * 1000) }
    else s

end Server

end UsbProxy
