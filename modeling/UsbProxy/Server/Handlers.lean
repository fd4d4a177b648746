import UsbProxy.Server.State

/-!
# What the statements and handlers decide (`udp_server.cpp`)

The parts of `server_loop` between two accesses to shared state, as functions of the server's
state: the refusals of a handler in the order of the source, and what an acceptance records.  The
`…Marks` functions say which moments of a run an acceptance is.
-/

namespace UsbProxy

open Bits

namespace World

/-- The `enqueue_report` of the pending release for a server that tracks `tracked`. -/
def enqueueFinalRelease (w : World) (tracked : ℕ) (key : Key) : World × EnqueueResult :=
  let r := w.enqueueReport { kind := .releaseAll, session := key.session, commandId := key.command }
  (if r.2 = .ok ∧ (w.selectedEndpoint.any fun e => e.generation != tracked) then
      r.1.note .untracked
    else r.1, r.2)

end World

namespace Server

/-- The generation is stored by the first iteration that finds an endpoint. -/
def track (s : Server) (e : EndpointSnapshot) : Server :=
  if s.trackedGeneration = 0 ∧ e.ready then { s with trackedGeneration := e.generation } else s

/-- `mover.event(event);sync_move()` -/
def moveEvent (s : Server) (event : WriterEvent) : Server :=
  { s with mover := s.mover.event event }.syncMove

/-! ### The click scheduler -/

/-- The `enqueue_report` of a press. -/
def pressArgs (s : Server) (click : ClickWork) : EnqueueArgs :=
  { persistent := s.persistentButtons
    scheduled := s.scheduledButtons ||| buttonBit click.button
    kind := .clickPress, session := click.key.session, commandId := click.key.command
    clickIndex := click.index, clickButton := click.button }

def pressed (s : Server) (click : ClickWork) : Server :=
  { s.setFront { click with phase := .pressInflight } with
    scheduledButtons := s.scheduledButtons ||| buttonBit click.button }

/-- The `enqueue_report` of a release. -/
def releaseArgs (s : Server) (click : ClickWork) : EnqueueArgs :=
  { persistent := s.persistentButtons
    scheduled := s.scheduledButtons &&& ~~~buttonBit click.button
    kind := .clickRelease, session := click.key.session, commandId := click.key.command
    clickIndex := click.index, clickButton := click.button }

def released (s : Server) (click : ClickWork) : Server :=
  { s.setFront { click with phase := .releaseInflight } with
    scheduledButtons := s.scheduledButtons &&& ~~~buttonBit click.button }

/-! ### Telemetry and queries -/

def telemetry (s : Server) (e : EndpointSnapshot) : Telemetry :=
  { ready := e.ready, physical := e.physical, persistent := e.persistent, scheduled := e.scheduled
    xmin := e.xmin, xmax := e.xmax, ymin := e.ymin, ymax := e.ymax
    physicalDx := e.physicalDx, physicalDy := e.physicalDy
    accepted := saturate32 s.acceptedTotal, completed := saturate32 s.completedTotal
    active := if s.work.isEmpty then 0 else 1
    queued := if 1 < s.work.length then min 65535 (s.work.length - 1) else 0
    generation := e.generation, pollUs := e.pollUs, physicalAgeUs := e.physicalAgeUs
    physicalReceived := e.physicalReceived, physicalSubmitted := e.physicalSubmitted
    outputQueue := e.outputQueue, syntheticPending := e.syntheticPending
    superseded := e.superseded, writerFailures := e.writerFailures, snapshotNs := e.snapshotNs
    cumulativeX := e.cumulativeX, cumulativeY := e.cumulativeY }

/-- A changed snapshot, or any after 10 ms, goes to the subscriber. -/
def report (s : Server) (now : ℕ) (t : Telemetry) : Server :=
  if !t.same s.previousTelemetry ∨ 10000000 ≤ now - s.lastTelemetry then
    let sub := s.subscription
    { s.send s.subscriber (.upt sub.version sub.client s.epoch sub.token sub.sequence t) with
      subscription := { sub with sequence := (sub.sequence + 1) % 2 ^ 32 }
      previousTelemetry := t, lastTelemetry := now }
  else s

/-- A subscription packet of the subscriber or of a new one. -/
def subscribe (s : Server) (source : Peer) (data : List Byte) (now : ℕ) : Server :=
  match s.subscription.accept data now with
  | none => s
  | some subscription => { s with subscription, subscriber := source, lastTelemetry := 0 }

def capabilities (s : Server) (e : EndpointSnapshot) (session token : ℕ) :
    MoveProtocol.Capabilities :=
  { ready := e.ready, buttons := e.supported.toNat, session, token, epoch := s.epoch
    generation := e.generation, layout := e.layout, pollUs := e.pollUs
    xmin := e.xmin, xmax := e.xmax, ymin := e.ymin, ymax := e.ymax }

/-! ### Sessions and records -/

/-- The `prune` of `stale` and `admit`. -/
def pruneSessions (s : Server) (now : ℕ) : Server := { s with sessions := s.sessions.prune now }

/-- Change the record of a key. -/
def setRecord (s : Server) (key : Key) (f : CachedCommand → CachedCommand) : Server :=
  { s with cache := updateCache key f s.cache }

/-- The record `accept_record` pushes. -/
def clickRecord (r : ClickProtocol.Request) (source : Peer) (accepted : ℕ) : CachedCommand :=
  { key := ⟨r.session, r.command⟩, request := r, button := r.button, accepted, peer := source }

/-- `accept_record`; `none` when the cache stays full. -/
def acceptRecord (s : Server) (r : ClickProtocol.Request) (source : Peer) (accepted : ℕ) :
    Option (Server × CachedCommand) :=
  let s := s.removeOldCache
  if maxCacheRecords ≤ s.cache.length then none
  else
    let c := clickRecord r source accepted
    some ({ s with cache := s.cache ++ [c] }, c)

/-! ### Transactions -/

/-- `segments`: the reports one axis needs. -/
def segments (n minimum maximum : ℤ) : ℕ :=
  if n = 0 then 0
  else
    let span := if 0 < n then maximum else -minimum
    if 0 < span then (n.natAbs + span.toNat - 1) / span.toNat else 1000000

def outSegments (e : EndpointSnapshot) (r : MoveProtocol.Request) : ℕ :=
  max (segments r.dx e.xmin e.xmax) (segments r.dy e.ymin e.ymax)

def backSegments (e : EndpointSnapshot) (r : MoveProtocol.Request) : ℕ :=
  max (segments (-r.dx) e.xmin e.xmax) (segments (-r.dy) e.ymin e.ymax)

/-- The least time a transaction can take. -/
def minimumUs (e : EndpointSnapshot) (r : MoveProtocol.Request) : ℕ :=
  (outSegments e r + backSegments e r + if r.button ≠ 0 then 2 else 0) * e.pollUs + r.settleUs +
    r.returnUs + if r.button ≠ 0 then r.pressUs else 0

/-- Why a new transaction is refused; `none` when it can be admitted. -/
def moveVerdict (s : Server) (e : EndpointSnapshot) (r : MoveProtocol.Request) :
    Option MoveProtocol.Status :=
  if !e.ready then some .notReady
  else if e.generation ≠ r.generation then some .endpointChanged
  else if s.mover.active ∨ s.work ≠ [] ∨ s.releasePending ∨ e.syntheticPending ≠ 0 ∨
      e.outputQueue ≠ 0 then some .busy
  else if (if r.button ≠ 0 then e.physical &&& buttonBit r.button else e.physical) ≠ 0 ∨
      s.persistentButtons ≠ 0 ∨ s.scheduledButtons ≠ 0 ∨ e.persistent ≠ 0 ∨ e.scheduled ≠ 0 then
    some .buttonActive
  else if r.button ≠ 0 ∧ (e.supported &&& buttonBit r.button = 0 ∨ r.pressUs < e.pollUs) then
    some .invalid
  else if 32 < outSegments e r ∨ 32 < backSegments e r ∨ r.budgetUs ≤ minimumUs e r then
    some .range
  else none

/-- A control for a transaction in the cache. -/
def controlMove (s : Server) (source : Peer) (r : MoveProtocol.Request) (prior : CachedCommand) :
    Server :=
  let s := s.setRecord prior.key fun c => { c with peer := source }
  if prior.terminal then s
  else
    match r.operation with
    | .continue_ => { s with mover := s.mover.proceed }
    | .cancel => { s with mover := s.mover.cancel }
    | _ => s

/-- The Continue of a transaction in `Waiting` and every Cancel. -/
def controlMarks (s : Server) (r : MoveProtocol.Request) : List Mark :=
  match r.operation with
  | .continue_ =>
    if s.mover.key = ⟨r.session, r.command⟩ ∧ s.mover.active ∧ s.mover.ack.stage = .waiting then
      [.continued ⟨r.session, r.command⟩]
    else []
  | .cancel => [.cancelAsked ⟨r.session, r.command⟩]
  | _ => []

def moveMarks (_s : Server) (r : MoveProtocol.Request) (e : EndpointSnapshot) : List Mark :=
  [.adopted, .accepted (if r.button ≠ 0 then buttonBit r.button else 0), .executed r,
    .moveStarted ⟨r.session, r.command⟩ e.generation, .admitted ⟨r.session, r.command⟩ true]

/-- An admitted transaction, with the sessions after `admit` and the three readings of the
clock. -/
def startMove (s : Server) (source : Peer) (r : MoveProtocol.Request) (e : EndpointSnapshot)
    (sessions : ClickSessions.Tracker) (t1 t2 t3 : ℕ) : Server :=
  let mover := s.mover.start r e t1
  let c : CachedCommand := {
    key := ⟨r.session, r.command⟩, peer := source, movement := true, moveRequest := r
    moveAck := mover.ack }
  let s := { s with
    mover, cache := s.cache ++ [c], sessions := sessions.accept r.session r.command t2 }
  { s.renew source t3 with trackedGeneration := e.generation }.sendCached c c.status

/-! ### Clicks and ReleaseAll -/

/-- The answer to a UPC1 packet that does not parse. -/
def rejectPacket (s : Server) (source : Peer) (data : List Byte) : Server :=
  let key : Key := if 24 ≤ data.length then ⟨get64 data 8, get64 data 16⟩ else {}
  let version :=
    if 4 < data.length ∧ byteAt data 4 = ClickProtocol.version2 then ClickProtocol.version2
    else ClickProtocol.version1
  s.sendAck source key (if 6 < data.length then byteAt data 6 else 0) .invalid 0 0 version

/-- The answer to a refused UPC1 request. -/
def rejectClick (s : Server) (source : Peer) (r : ClickProtocol.Request) (button : ℕ)
    (status : ClickProtocol.Status) : Server :=
  s.sendAck source ⟨r.session, r.command⟩ button status 0 0 r.version

/-- The answer to a command in the cache that is asked for again. -/
def repeatClick (s : Server) (source : Peer) (prior : CachedCommand) : Server :=
  (s.setRecord prior.key fun c => { c with peer := source }).sendAck source prior.key prior.button
    (if prior.terminal then prior.status else .duplicate) prior.accepted prior.completed
    prior.request.version

/-- Why a new Schedule is refused; `none` when it can be admitted. -/
def scheduleVerdict (s : Server) (e : EndpointSnapshot) (r : ClickProtocol.Request) :
    Option ClickProtocol.Status :=
  if s.mover.active then some .busy
  else if !e.ready then some .notReady
  else if r.button < 1 ∨ 8 < r.button ∨ e.supported &&& buttonBit r.button = 0 then
    some .unsupportedButton
  else if r.count = 0 ∨ 10000 < r.count ∨ r.pressUs < e.pollUs ∨ 5000000 < r.pressUs ∨
      60000000 < r.intervalUs ∨
      (r.version = ClickProtocol.version1 ∧ r.intervalUs < r.pressUs + e.pollUs) then some .invalid
  else if (e.physical ||| s.persistentButtons) &&& buttonBit r.button ≠ 0 then some .buttonActive
  else if maxClickCommands ≤ s.work.length then some .queueFull
  else none

def scheduleMarks (_s : Server) (r : ClickProtocol.Request) : List Mark :=
  [.adopted, .accepted (buttonBit r.button), .scheduled r,
    .admitted ⟨r.session, r.command⟩ false]

/-- An admitted Schedule, on the server whose cache holds its record `c`. -/
def pushClick (s : Server) (source : Peer) (r : ClickProtocol.Request) (e : EndpointSnapshot)
    (c : CachedCommand) (requestNow t1 t2 : ℕ) : Server :=
  let click : ClickWork := {
    key := ⟨r.session, r.command⟩, button := r.button, count := r.count, pressUs := r.pressUs
    intervalUs := r.intervalUs, dueNs := t1, version := r.version, binary := true }
  let s := { s with
    sessions := s.sessions.accept r.session r.command requestNow, work := s.work ++ [click]
    acceptedTotal := s.acceptedTotal + r.count }
  { s.renew source t2 with trackedGeneration := e.generation }.sendCached c .accepted

def releaseMarks (_s : Server) (r : ClickProtocol.Request) : List Mark :=
  [.releaseAccepted ⟨r.session, r.command⟩, .admitted ⟨r.session, r.command⟩ false]

/-- An admitted ReleaseAll before its reset, on the server whose cache holds its record `c`. -/
def recordRelease (s : Server) (source : Peer) (r : ClickProtocol.Request) (c : CachedCommand)
    (requestNow t : ℕ) : Server :=
  let s := { s with sessions := s.sessions.accept r.session r.command requestNow }
  (s.renew source t).sendCached c .accepted

/-! ### UPX1 and ASCII -/

/-- The command of a UPX1 packet, without its buttons. -/
def snapshotCommand (data : List Byte) : MouseCommand :=
  { x := getI16 data 8, y := getI16 data 10, wheel := getI8 data 12, pan := getI8 data 13 }

/-- The buttons of a UPX1 packet. -/
def snapshotButtons (data : List Byte) : Mask := data.getD 14 0

/-- The `prune` of `stale` and `accept`. -/
def pruneReplay (s : Server) (now : ℕ) : Server :=
  { s with movementReplay := s.movementReplay.prune now }

/-- The `enqueue_report` of a UPX1 packet; `none` for a heartbeat. -/
def snapshotArgs (s : Server) (command : MouseCommand) (next : Mask) : Option EnqueueArgs :=
  let transition : Bool := next != s.persistentButtons
  let movement : Bool := command.x != 0 || command.y != 0
  if transition || movement || command.wheel != 0 || command.pan != 0 then
    some {
      command, persistent := next, scheduled := s.scheduledButtons
      kind := if transition then .persistent else .movement
      latest := !transition && movement && command.wheel == 0 && command.pan == 0 }
  else none

/-- An accepted UPX1 packet, before the lease is renewed. -/
def applySnapshot (s : Server) (peer : Peer) (sequence : BitVec 32) (next : Mask) (now : ℕ) :
    Server :=
  { s with
    persistentButtons := next, movementReplay := s.movementReplay.accept peer sequence now }

def snapshotMarks (s : Server) (peer : Peer) (sequence : BitVec 32) (next : Mask) (now : ℕ) :
    List Mark :=
  [.adopted, .accepted next, .honoured peer sequence false] ++
    ((s.movementReplay.prune now).acceptMarks peer ++ s.movementReplay.pruneMarks now)

/-- The click of an ASCII `+click`. -/
def asciiClick (e : EndpointSnapshot) (button now : ℕ) : ClickWork :=
  { button, count := 1, pressUs := max 10000 e.pollUs
    intervalUs := (max 10000 e.pollUs + e.pollUs) % 2 ^ 32, dueNs := now }

/-- The `enqueue_report` of an ASCII command. -/
def asciiArgs (s : Server) (command : MouseCommand) (next : Mask) : EnqueueArgs :=
  { command, persistent := next, scheduled := s.scheduledButtons
    kind := if next ≠ s.persistentButtons then .persistent else .movement }

end Server

end UsbProxy
