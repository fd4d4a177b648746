import UsbProxy.Server.Ascii
import UsbProxy.Server.Handlers

/-!
# The server loop (`UdpServer::server_loop`)

The statements of the loop and the datagram handlers, as clients of the shared `World`: every
mixer call and every reading of the clock is one access, before which the other threads may take
any steps.  `Config` is the loop with the world around it and `Config.run` its runs, a step being
one step of another thread or one statement of the loop.
-/

namespace UsbProxy

open Bits

/-- A program of the UDP thread. -/
abbrev Srv := Client.Prog Server World EnvStep

structure Datagram where
  source : Peer := {}
  data : List Byte := []
deriving DecidableEq, Repr

namespace Srv

def mixer {α : Type} (f : World → World × α) : Srv α := Client.call World.env f

/-- `now_ns()`, and `Clock::now()` in nanoseconds. -/
def now : Srv ℕ := mixer fun w => (w, w.clock)

def snapshot : Srv EndpointSnapshot := mixer fun w => (w, w.endpointSnapshot)

def get : Srv Server := Client.getPriv

def modify (f : Server → Server) : Srv Unit := Client.update f

def mark (l : List Mark) : Srv Unit := Client.mark (World.notes · l)

/-- `owner=from;owned=true;last=Clock::now()` -/
def renew (source : Peer) : Srv Unit := do
  let t ← now
  modify (·.renew source t)

/-- `begin_reset` -/
def beginReset (attachRelease : Bool) (key : Key) : Srv Unit := do
  let now1 ← now
  let now2 ← now
  modify (·.dropWork attachRelease key now1 now2)
  let cleared ← mixer World.clearSyntheticState
  modify (·.oweRelease attachRelease key cleared.generation)

/-- `begin_reset(false,{});owned=false` -/
def dropOwner : Srv Unit := do
  beginReset false {}
  modify fun s => { s with owned := false }

/-! ### The statements of the loop -/

/-- The generation check at the top of the loop. -/
def checkGeneration : Srv Unit := do
  let e ← snapshot
  mark [.checked]
  modify (·.track e)
  let s ← get
  if s.trackedGeneration ≠ 0 ∧ e.generation ≠ s.trackedGeneration then do
    dropOwner
    let e ← snapshot
    mark [.rechecked]
    modify fun s => { s with trackedGeneration := e.generation }
  else pure ()

/-- The body of `process_writer_events`. -/
def processEvent (event : WriterEvent) : Srv Unit := do
  modify (·.moveEvent event)
  let s ← get
  if event.success = false then dropOwner
  else if s.releaseDone event then do
    mark [.releaseCompleted s.releaseKey]
    modify (·.completeRelease)
  else modify (·.clickEvent event)

def processEvents : List WriterEvent → Srv Unit
  | [] => pure ()
  | event :: rest => do
    processEvent event
    processEvents rest

/-- `process_writer_events` -/
def processWriterEvents : Srv Unit := do
  let events ← mixer World.takeWriterEvents
  processEvents events

/-- The check of `take_writer_overflow`. -/
def checkOverflow : Srv Unit := do
  let overflow ← mixer World.takeWriterOverflow
  if overflow then dropOwner else pure ()

/-- The controller lease of 250 ms. -/
def checkLease : Srv Unit := do
  let t ← now
  let s ← get
  if s.owned ∧ 250000000 < t - s.last then dropOwner else pure ()

/-- `mover.tick`: whether it requests the final release. -/
def moverTick : Srv Bool := do
  let e ← snapshot
  let t ← now
  let s ← get
  let r := s.mover.tick e t
  modify fun s => { s with mover := r.1 }
  match r.2 with
  | .done reset => pure reset
  | .enqueue args => do
    let result ← mixer (·.enqueueReport args)
    modify fun s => { s with mover := (r.1.afterEnqueue result t).1 }
    pure (r.1.afterEnqueue result t).2

def tickMover : Srv Unit := do
  let reset ← moverTick
  if reset then do
    modify (·.syncMove)
    beginReset false {}
    modify (·.syncMove)
  else modify (·.syncMove)

/-- The press of the click in front. -/
def pressFront (click : ClickWork) : Srv Unit := do
  let e ← snapshot
  let s ← get
  let bit := buttonBit click.button
  if !e.ready ∨ e.generation ≠ s.trackedGeneration then beginReset false {}
  else if (e.physical ||| s.persistentButtons ||| s.scheduledButtons) &&& bit ≠ 0 then
    modify (·.finishFront .buttonActive)
  else do
    let result ← mixer (·.enqueueReport (s.pressArgs click))
    match result with
    | .ok => modify (·.pressed click)
    | .unsupported => beginReset false {}
    | _ => pure ()

/-- The release of the click in front. -/
def releaseFront (click : ClickWork) : Srv Unit := do
  let s ← get
  let result ← mixer (·.enqueueReport (s.releaseArgs click))
  match result with
  | .ok => modify (·.released click)
  | .unsupported => beginReset false {}
  | _ => modify (·.setFront { click with phase := .awaitRelease })

/-- The pending release of `scheduler_tick`. -/
def enqueueRelease : Srv Unit := do
  let s ← get
  if s.releasePending ∧ !s.releaseInflight then do
    let result ← mixer fun w => w.enqueueFinalRelease s.trackedGeneration s.releaseKey
    if result = .ok then modify fun s => { s with releaseInflight := true } else pure ()
  else pure ()

/-- `scheduler_tick` -/
def schedulerTick : Srv Unit := do
  let t ← now
  enqueueRelease
  let s ← get
  match s.work with
  | [] => pure ()
  | click :: _ =>
    if s.releasePending then pure ()
    else if click.phase = .awaitPress ∧ click.dueNs ≤ t then pressFront click
    else if (click.phase = .holding ∨ click.phase = .awaitRelease) ∧ click.dueNs ≤ t then
      releaseFront click
    else pure ()

/-- The telemetry of the subscriber. -/
def sendTelemetry : Srv Unit := do
  let t ← now
  let s ← get
  if s.subscription.alive t then do
    let e ← snapshot
    modify (·.report t (s.telemetry e))
  else pure ()

/-! ### The datagram handlers -/

/-- `UPS1`, `UPS2` and `UPS3`. -/
def handleSubscribe (d : Datagram) : Srv Unit := do
  let t ← now
  let s ← get
  if s.subscription.alive t ∧ s.subscriber ≠ d.source then
    modify (·.send d.source (.text "busy"))
  else do
    let t ← now
    modify (·.subscribe d.source d.data t)

/-- `UPQ1` -/
def handleQuery (d : Datagram) : Srv Unit :=
  match MoveProtocol.parseQuery d.data with
  | none => pure ()
  | some (session, token) => do
    let e ← snapshot
    modify fun s => s.send d.source (.upi (s.capabilities e session token))

/-- `reject` of the UPM1 handler. -/
def rejectMove (d : Datagram) (r : MoveProtocol.Request) (status : MoveProtocol.Status) :
    Srv Unit := do
  let e ← snapshot
  modify fun s => s.send d.source (.upr {
    status, session := r.session, command := r.command, epoch := s.epoch
    generation := e.generation })

/-- A UPM1 packet for a command in the cache. -/
def retryMove (d : Datagram) (r : MoveProtocol.Request) (prior : CachedCommand) : Srv Unit :=
  if !prior.movement ∨ !MoveProtocol.same prior.moveRequest r then rejectMove d r .invalid
  else do
    let s ← get
    mark (s.controlMarks r)
    modify (·.controlMove d.source r prior)
    renew d.source
    modify fun s => s.sendCached { prior with peer := d.source } prior.status

/-- The admission of a transaction. -/
def executeMove (d : Datagram) (r : MoveProtocol.Request) (e : EndpointSnapshot) : Srv Unit := do
  let s ← get
  mark s.evictMarks
  modify (·.removeOldCache)
  let s := s.removeOldCache
  if maxCacheRecords ≤ s.cache.length then rejectMove d r .queueFull
  else do
    let t ← now
    mark (s.sessions.pruneMarks t)
    modify (·.pruneSessions t)
    match (s.sessions.prune t).admitPruned r.session t false s.sessionProtected with
    | none => rejectMove d r .queueFull
    | some (sessions, forgot) => do
      let t1 ← now
      let t2 ← now
      let t3 ← now
      mark (s.moveMarks r e ++ forgot)
      modify (·.startMove d.source r e sessions t1 t2 t3)

/-- `UPM1` -/
def handleMove (d : Datagram) : Srv Unit :=
  match MoveProtocol.parse d.data with
  | none => pure ()
  | some r => do
    let s ← get
    if s.owned ∧ s.owner ≠ d.source then rejectMove d r .busy
    else if r.epoch ≠ s.epoch then rejectMove d r .endpointChanged
    else
      match findCache s.cache ⟨r.session, r.command⟩ with
      | some prior => retryMove d r prior
      | none =>
        if r.operation ≠ .execute then rejectMove d r .stale
        else do
          let t ← now
          mark (s.sessions.pruneMarks t)
          modify (·.pruneSessions t)
          if (s.sessions.prune t).isStale r.session r.command then rejectMove d r .stale
          else do
            let e ← snapshot
            mark [.sampled]
            match s.moveVerdict e r with
            | some status => rejectMove d r status
            | none => executeMove d r e

/-- A UPC1 packet for a command in the cache. -/
def retryClick (d : Datagram) (r : ClickProtocol.Request) (prior : CachedCommand) : Srv Unit :=
  if prior.movement ∨ !ClickProtocol.sameRequest prior.request r then
    modify (·.rejectClick d.source r r.button .invalid)
  else do
    renew d.source
    modify (·.repeatClick d.source prior)

/-- The admission of a scheduled click. -/
def scheduleClick (d : Datagram) (r : ClickProtocol.Request) (e : EndpointSnapshot)
    (requestNow : ℕ) : Srv Unit := do
  let s ← get
  mark s.evictMarks
  modify (·.removeOldCache)
  let s := s.removeOldCache
  if maxCacheRecords ≤ s.cache.length then modify (·.rejectClick d.source r r.button .queueFull)
  else do
    mark (s.sessions.pruneMarks requestNow)
    modify (·.pruneSessions requestNow)
    match (s.sessions.prune requestNow).admitPruned r.session requestNow false
        s.sessionProtected with
    | none => modify (·.rejectClick d.source r r.button .queueFull)
    | some (sessions, forgot) =>
      match { s with sessions }.acceptRecord r d.source r.count with
      | none => do
        mark forgot
        modify fun s => { s with sessions }.rejectClick d.source r r.button .queueFull
      | some (s, c) => do
        let t1 ← now
        let t2 ← now
        mark (s.scheduleMarks r ++ forgot)
        modify fun _ => s.pushClick d.source r e c requestNow t1 t2

/-- The admission of a ReleaseAll. -/
def releaseAll (d : Datagram) (r : ClickProtocol.Request) (requestNow : ℕ) : Srv Unit := do
  let s ← get
  mark s.evictMarks
  modify (·.removeOldCache)
  let s := s.removeOldCache
  if maxCacheRecords ≤ s.cache.length then modify (·.rejectClick d.source r 0 .queueFull)
  else do
    mark (s.sessions.pruneMarks requestNow)
    modify (·.pruneSessions requestNow)
    match (s.sessions.prune requestNow).admitPruned r.session requestNow true
        s.sessionProtected with
    | none => modify (·.rejectClick d.source r 0 .queueFull)
    | some (sessions, forgot) =>
      match { s with sessions }.acceptRecord r d.source 0 with
      | none => do
        mark forgot
        modify fun s => { s with sessions }.rejectClick d.source r 0 .queueFull
      | some (s, c) => do
        let t ← now
        mark (s.releaseMarks r ++ forgot)
        modify fun _ => s.recordRelease d.source r c requestNow t
        beginReset true ⟨r.session, r.command⟩

/-- `UPC1` -/
def handleClick (d : Datagram) : Srv Unit :=
  match ClickProtocol.parse d.data with
  | none => modify (·.rejectPacket d.source d.data)
  | some r => do
    let s ← get
    if s.owned ∧ s.owner ≠ d.source then modify (·.rejectClick d.source r r.button .busy)
    else
      match findCache s.cache ⟨r.session, r.command⟩ with
      | some prior => retryClick d r prior
      | none => do
        let requestNow ← now
        mark (s.sessions.pruneMarks requestNow)
        modify (·.pruneSessions requestNow)
        if (s.sessions.prune requestNow).isStale r.session r.command then
          modify (·.rejectClick d.source r r.button .staleCommand)
        else do
          let e ← snapshot
          mark [.sampled]
          match r.operation with
          | .schedule =>
            match s.scheduleVerdict e r with
            | some status => modify (·.rejectClick d.source r r.button status)
            | none => scheduleClick d r e requestNow
          | .releaseAll => releaseAll d r requestNow

/-- An accepted UPX1 packet. -/
def acceptSnapshot (d : Datagram) (sequence : BitVec 32) (e : EndpointSnapshot) (packetNow : ℕ) :
    Srv Unit := do
  let next := Server.snapshotButtons d.data
  let s ← get
  mark (s.snapshotMarks d.source sequence next packetNow)
  modify (·.applySnapshot d.source sequence next packetNow)
  renew d.source
  modify fun s => { s with trackedGeneration := e.generation }

/-- A UPX1 packet that is neither reserved nor stale. -/
def applySnapshot (d : Datagram) (sequence : BitVec 32) (packetNow : ℕ) : Srv Unit := do
  let command := Server.snapshotCommand d.data
  let next := Server.snapshotButtons d.data
  let e ← snapshot
  mark [.sampled]
  let s ← get
  if !e.ready ∨ next &&& ~~~e.supported ≠ 0 then pure ()
  else if s.mover.active then
    if command.noMotion ∧ next = 0 then do
      renew d.source
      mark [.honoured d.source sequence true]
    else pure ()
  else
    match s.snapshotArgs command next with
    | none => acceptSnapshot d sequence e packetNow
    | some args => do
      let result ← mixer (·.enqueueReport args)
      if result = .ok then acceptSnapshot d sequence e packetNow else pure ()

/-- `UPX1` -/
def handleSnapshot (d : Datagram) : Srv Unit := do
  let sequence := BitVec.ofNat 32 (get32 d.data 4)
  let packetNow ← now
  if byteAt d.data 15 ≠ 0 then pure ()
  else do
    let s ← get
    mark (s.movementReplay.pruneMarks packetNow)
    modify (·.pruneReplay packetNow)
    if (s.movementReplay.prune packetNow).isStale d.source sequence then pure ()
    else applySnapshot d sequence packetNow

def reply (d : Datagram) (text : String) : Srv Unit := modify (·.send d.source (.text text))

/-- A valid ASCII command other than `+release`. -/
def performAscii (d : Datagram) (c : Ascii.Command) : Srv Unit := do
  let e ← snapshot
  mark [.sampled]
  let s ← get
  let bit := buttonBit c.button
  if !e.ready then reply d "error not_ready_range_or_queue_full"
  else if c.button < 1 ∨ 8 < c.button ∨ c.next &&& ~~~e.supported ≠ 0 ∨
      (c.click ∧ e.supported &&& bit = 0) then reply d "error button"
  else if c.click then
    if (e.physical ||| s.persistentButtons) &&& bit ≠ 0 then reply d "error button_active"
    else if maxClickCommands ≤ s.work.length then reply d "error queue_full"
    else do
      let t ← now
      mark [.adopted, .accepted bit]
      modify fun s => { s with work := s.work ++ [Server.asciiClick e c.button t] }
      renew d.source
      modify fun s => { s with trackedGeneration := e.generation }
      reply d "ok"
  else do
    let result ← mixer (·.enqueueReport (s.asciiArgs c.command c.next))
    if result ≠ .ok then reply d "error not_ready_range_or_queue_full"
    else do
      mark [.adopted, .accepted c.next]
      modify fun s => { s with persistentButtons := c.next }
      renew d.source
      modify fun s => { s with trackedGeneration := e.generation }
      reply d "ok"

/-- The ASCII commands. -/
def handleAscii (d : Datagram) (text : List Char) : Srv Unit :=
  match Ascii.normalise text with
  | none => reply d "error syntax"
  | some text => do
    let s ← get
    let (name, rest) := (Ascii.word text).getD ([], [])
    let name := String.ofList name
    if name = "+release" then
      if (Ascii.word rest).isSome then reply d "error command"
      else do
        beginReset false {}
        renew d.source
        reply d "ok"
    else if s.mover.active then reply d "busy"
    else
      match Ascii.parse name rest s.persistentButtons with
      | .error text => reply d text
      | .ok c => performAscii d c

/-- A datagram that is none of the other protocols. -/
def handleText (d : Datagram) : Srv Unit := do
  let text := Ascii.textOf d.data
  let s ← get
  if text = "+state".toList then do
    let e ← snapshot
    reply d (Ascii.stateText e)
  else if s.owned ∧ s.owner ≠ d.source then reply d "busy"
  else if d.data.length = 16 ∧ hasTag d.data "UPX1" then handleSnapshot d
  else handleAscii d text

/-- The dispatch over the first four bytes. -/
def handle (d : Datagram) : Srv Unit :=
  if hasTag d.data "UPS1" ∨ hasTag d.data "UPS2" ∨ hasTag d.data "UPS3" then handleSubscribe d
  else if hasTag d.data "UPQ1" then handleQuery d
  else if hasTag d.data "UPM1" then handleMove d
  else if hasTag d.data "UPC1" then handleClick d
  else handleText d

/-- The wait for a datagram: empty, oversized and filtered ones are dropped. -/
def receive (input : Option Datagram) : Srv Unit := do
  let s ← get
  match input with
  | none => pure ()
  | some d =>
    if d.data.length = 0 ∨ 1024 < d.data.length then pure ()
    else if s.peerFilter.any (· != d.source.address) then pure ()
    else handle d

end Srv

/-! ### Runs -/

/-- The statement the loop is at. -/
inductive Stage
  | top | events | overflow | lease | move | schedule | telemetry | receive
deriving DecidableEq, Repr

def Stage.next : Stage → Stage
  | .top => .events
  | .events => .overflow
  | .overflow => .lease
  | .lease => .move
  | .move => .schedule
  | .schedule => .telemetry
  | .telemetry => .receive
  | .receive => .top

/-- The statement at a stage; `input` is the datagram `recvfrom` finds. -/
def Stage.statement (input : Option Datagram) : Stage → Srv Unit
  | .top => Srv.checkGeneration
  | .events => Srv.processWriterEvents
  | .overflow => Srv.checkOverflow
  | .lease => Srv.checkLease
  | .move => Srv.tickMover
  | .schedule => Srv.schedulerTick
  | .telemetry => Srv.sendTelemetry
  | .receive => Srv.receive input

/-- The server loop between two statements, and the world around it. -/
structure Config where
  stage : Stage := .top
  server : Server := {}
  world : World := {}

/-- A step of a run: one of another thread, or one statement of the loop with what the other
threads do between its accesses. -/
inductive Action
  | env (x : EnvStep)
  | server (sched : List (List EnvStep)) (input : Option Datagram)
deriving DecidableEq, Repr

namespace Config

def step (c : Config) : Action → Config
  | .env x => { c with world := c.world.env x }
  | .server sched input =>
    let r := (c.stage.statement input ⟨c.server, c.world, sched⟩).2
    { stage := c.stage.next, server := r.priv, world := r.shared }

def run (c : Config) (actions : List Action) : Config := actions.foldl step c

/-- The start of the server, before any endpoint is registered. -/
def init (epoch : ℕ) (peerFilter : Option ℕ) : Config := { server := { epoch, peerFilter } }

/-- A state some run of a server reaches. -/
def Reachable (c : Config) : Prop :=
  ∃ epoch peerFilter actions, c = (init epoch peerFilter).run actions

end Config

namespace Action

/-- An iteration of the loop that receives `input`, with every other thread at rest. -/
def iteration (input : Option Datagram) : List Action :=
  List.replicate 7 (.server [] none) ++ [.server [] input]

/-- A boot-protocol mouse at address 129 moves by nothing, and the report reaches USB. -/
def mouse : List Action :=
  [.env (.setProtocol 0 true), .env (.register 129 0 1 1000), .env (.physical 129 1 [0, 0, 0]),
    .env (.push 129), .env (.take 129), .env (.written 129 true)]

end Action

namespace Datagram

/-- A UPX1 packet with this button snapshot and no motion. -/
def upx (source : Peer) (sequence buttons : ℕ) : Datagram :=
  ⟨source, ascii "UPX1" ++ put32 sequence ++ List.replicate 6 0 ++ put8 buttons ++ [0]⟩

def upm (source : Peer) (r : MoveProtocol.Request) : Datagram := ⟨source, r.packet⟩

def text (source : Peer) (command : String) : Datagram := ⟨source, ascii command⟩

end Datagram

end UsbProxy
