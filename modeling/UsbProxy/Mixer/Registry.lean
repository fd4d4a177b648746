import UsbProxy.Mixer.Endpoint
import UsbProxy.Protocol.Click
import UsbProxy.Protocol.Move

/-!
# The mixer's registry and the threads around it

`World` is everything the UDP thread shares with the other threads: the registry behind
`registry_mutex`, the event queue behind `event_mutex`, and for each endpoint address a `Port`
with the FIFO and what its reader and writer thread hold.  Every mixer function runs under its
lock, so each is one function on `World`; the push of a writer event is part of the
`notify_mouse_report_written` step it ends.

`World.history` is not in the source: it records, newest first, the moments the properties speak
about.
-/

namespace UsbProxy

open Bits

/-- A controller endpoint (`sockaddr_in`, `upx_replay::Peer`). -/
structure Peer where
  address : ℕ := 0
  port : ℕ := 0
deriving DecidableEq, Repr

/-- Why a session or replay entry was forgotten: past its retention at time `now`, or pushed out by
newer entries. -/
inductive Forgotten
  | expired (now : ℕ)
  | pushedOut
deriving DecidableEq, Repr

/-- A click or transaction command (`Key`). -/
structure Key where
  session : ℕ := 0
  command : ℕ := 0
deriving DecidableEq, Repr

/-- The moments of a run the properties speak about. -/
inductive Mark
  /-- A report the writer got through to USB, and whether its item's masks were committed. -/
  | wrote (taken : Taken) (committed : Bool)
  /-- A layout or endpoint change of the selected endpoint. -/
  | relaid
  /-- Such a change that dropped synthetic state, and the generation it led to. -/
  | discarded (generation : ℕ)
  | enqueued (item : SyntheticItem)
  /-- `clear_synthetic_state`, the mixer's part of `begin_reset`, and the item in flight. -/
  | cleared (inflight : Option SyntheticItem)
  /-- The generation comparison at the top of the server loop. -/
  | checked
  /-- The second snapshot of the loop top, after its reset. -/
  | rechecked
  /-- The endpoint snapshot a datagram handler decides on. -/
  | sampled
  /-- A handler stored the generation of its snapshot in `tracked_generation`. -/
  | adopted
  /-- The pending release was enqueued while `tracked_generation` was not the endpoint's. -/
  | untracked
  /-- A command, snapshot or ASCII command was accepted that asks for these synthetic buttons. -/
  | accepted (buttons : Mask)
  /-- A command was admitted as new work, as a transaction (`movement`) or through UPC1. -/
  | admitted (key : Key) (movement : Bool)
  /-- The request of an admitted transaction. -/
  | executed (r : MoveProtocol.Request)
  /-- The request of an admitted Schedule. -/
  | scheduled (r : ClickProtocol.Request)
  /-- A Continue was processed while the executor was in `Waiting`. -/
  | continued (key : Key)
  /-- A Cancel was processed. -/
  | cancelAsked (key : Key)
  | releaseAccepted (key : Key)
  | releaseCompleted (key : Key)
  | moveStarted (key : Key) (generation : ℕ)
  /-- A UPX1 packet renewed the lease, whether or not a transaction was active. -/
  | honoured (peer : Peer) (sequence : BitVec 32) (transaction : Bool)
  | replayForgot (peer : Peer) (why : Forgotten)
  | evicted (key : Key)
  | retired (session stamp : ℕ)
  | sessionForgot (session : ℕ) (why : Forgotten)
  /-- Time passed. -/
  | elapsed (ns : ℕ)
deriving DecidableEq, Repr

/-- The threads of one endpoint address. -/
structure Port where
  dataQueue : List Io := []
  /-- The report the reader queued with the mixer and has not yet pushed to the FIFO. -/
  reader : Option Io := none
  /-- The report the writer took and has not yet reported as written. -/
  writer : Option Taken := none
deriving DecidableEq, Repr

structure World where
  clock : ℕ := 0
  nextGeneration : ℕ := 0
  nextEndpointInstance : ℕ := 0
  endpoints : ℕ → Option Endpoint := fun _ => none
  descriptors : ℕ → List MouseProfile := fun _ => []
  reportDescriptors : ℕ → List MouseProfile := fun _ => []
  bootProtocol : ℕ → Bool := fun _ => false
  selected : Option ℕ := none
  ports : ℕ → Port := fun _ => {}
  writerEvents : List WriterEvent := []
  writerOverflow : Bool := false
  history : List Mark := []

structure EndpointSnapshot where
  ready : Bool := false
  physical : Mask := 0
  persistent : Mask := 0
  scheduled : Mask := 0
  supported : Mask := 0
  xmin : ℤ := 0
  xmax : ℤ := 0
  ymin : ℤ := 0
  ymax : ℤ := 0
  physicalDx : ℤ := 0
  physicalDy : ℤ := 0
  pollUs : ℕ := 1000
  physicalAgeUs : ℕ := 0xffffffff
  physicalReceived : ℕ := 0
  physicalSubmitted : ℕ := 0
  superseded : ℕ := 0
  writerFailures : ℕ := 0
  outputQueue : ℕ := 0
  syntheticPending : ℕ := 0
  generation : ℕ := 0
  snapshotNs : ℕ := 0
  lastMotionNs : ℕ := 0
  activity : ℕ := 0
  layout : ℕ := 0
  cumulativeX : ℤ := 0
  cumulativeY : ℤ := 0
deriving DecidableEq, Repr

def saturate32 (value : ℕ) : ℕ := min value (2 ^ 32 - 1)
def saturate16 (value : ℕ) : ℕ := min value (2 ^ 16 - 1)

/-- `int` to `uint32_t`. -/
def toUInt32 (value : ℤ) : ℕ := (value % 2 ^ 32).toNat

/-! ### The layout fingerprint of `endpoint_snapshot` -/

def hashByte (layout byte : ℕ) : ℕ := (layout ^^^ byte) * 1099511628211 % 2 ^ 64

def hashWord (layout n : ℕ) : ℕ :=
  (List.range 8).foldl (fun h i => hashByte h (n / 2 ^ (8 * i) % 2 ^ 8)) layout

def hashField (layout : ℕ) (f : HidField) : ℕ :=
  hashWord (hashWord (hashWord (hashWord layout f.offset) f.bits) (toUInt32 f.minimum))
    (toUInt32 f.maximum)

def MouseProfile.fingerprint (m : MouseProfile) : ℕ :=
  let h := hashWord (hashWord 1469598103934665603 m.id) m.size
  let h := hashField (hashField (hashField (hashField h m.x) m.y) m.wheel) m.pan
  let h := m.buttons.foldl (fun h b => hashField (hashWord h b.1) b.2) h
  if h = 0 then 1 else h

/-- A change to this endpoint drops queued items or zeroes a committed mask. -/
def Endpoint.holdsSynthetic (e : Endpoint) : Bool :=
  !e.synthetic.isEmpty || e.persistentButtons != 0 || e.scheduledButtons != 0

/-- The item the writer is at. -/
def Endpoint.inflightItem (e : Endpoint) : Option SyntheticItem :=
  if e.inflight then e.synthetic.head? else none

namespace World

/-- Record a moment. -/
def note (w : World) (m : Mark) : World := { w with history := m :: w.history }

/-- Record several moments, newest first. -/
def notes (w : World) (l : List Mark) : World := { w with history := l ++ w.history }

def setEndpoint (w : World) (a : ℕ) (e : Endpoint) : World :=
  { w with endpoints := Function.update w.endpoints a (some e) }

def setPort (w : World) (a : ℕ) (p : Port) : World :=
  { w with ports := Function.update w.ports a p }

/-- The selected endpoint, if it is registered. -/
def selectedEndpoint (w : World) : Option Endpoint := w.selected.bind w.endpoints

/-- Note a change of the endpoint `e` at `a`, if it is the selected one. -/
def noteChange (w : World) (a : ℕ) (e : Endpoint) (generation : ℕ) : World :=
  if w.selected = some a then
    if e.holdsSynthetic then w.notes [.discarded generation, .relaid] else w.note .relaid
  else w

/-- One round of the loop of `invalidate_interface`. -/
def invalidateAt (number : ℕ) (w : World) (a : ℕ) : World :=
  match w.endpoints a with
  | none => w
  | some e =>
    if e.interfaceNumber = number then
      let generation := w.nextGeneration + 1
      ({ w with nextGeneration := generation }.setEndpoint a (e.invalidate generation)).noteChange
        a e generation
    else w

/-- `invalidate_interface`: the endpoints by ascending address. -/
def invalidateInterface (w : World) (number : ℕ) : World :=
  (List.range 256).foldl (invalidateAt number) w

def learnMouseDescriptor (w : World) (number : ℕ) (data : List Byte) : World :=
  let profiles := parseMouseDescriptor data
  let w := { w with reportDescriptors := Function.update w.reportDescriptors number profiles }
  if w.bootProtocol number then w
  else
    { w with descriptors := Function.update w.descriptors number profiles }.invalidateInterface
      number

def setMouseProtocol (w : World) (number : ℕ) (boot : Bool) : World :=
  let profiles := if boot then [bootProfile] else w.reportDescriptors number
  { w with
    bootProtocol := Function.update w.bootProtocol number boot
    descriptors := Function.update w.descriptors number profiles }.invalidateInterface number

/-- `register_mouse_endpoint` for the endpoint address `a`. -/
def registerMouseEndpoint (w : World) (a number epNum pollUs : ℕ) : World :=
  let generation := w.nextGeneration + 1
  let inst := w.nextEndpointInstance + 1
  let e : Endpoint := {
    info := { epNum, mousePollIntervalUs := if pollUs = 0 then 1000 else pollUs }
    interfaceNumber := number, generation, inst }
  let w' := { w with nextGeneration := generation, nextEndpointInstance := inst }.setEndpoint a e
  match w.endpoints a with
  | none => w'
  | some old => w'.noteChange a old generation

/-- `unregister_mouse_endpoint` for the endpoint address `a`. -/
def unregisterMouseEndpoint (w : World) (a : ℕ) : World :=
  let selected := if w.selected = some a then none else w.selected
  match w.endpoints a with
  | none => { w with selected }
  | some e =>
    let generation := w.nextGeneration + 1
    { w.noteChange a e generation with
      endpoints := Function.update w.endpoints a none, nextGeneration := generation, selected }

/-- `queue_physical_mouse_report`: the registry and the report with its metadata. -/
def queuePhysicalMouseReport (w : World) (a : ℕ) (io : Io) : World × Io :=
  match w.endpoints a with
  | none => (w, io)
  | some e =>
    let r := e.queuePhysical (w.descriptors e.interfaceNumber) w.clock io
    let w := w.setEndpoint a r.1
    (if r.2.mousePhysicalMatch then { w with selected := some (w.selected.getD a) } else w, r.2)

/-- `seed_mouse_report` -/
def seedMouseReport (w : World) (a : ℕ) (data : List Byte) : World :=
  match w.endpoints a with
  | none => w
  | some e =>
    match e.seed (w.descriptors e.interfaceNumber) data with
    | none => w
    | some e => { w.setEndpoint a e with selected := some (w.selected.getD a) }

/-- `take_mouse_report`, storing the report with the writer of the address. -/
def takeMouseReport (w : World) (a : ℕ) : World :=
  match w.endpoints a with
  | none => w
  | some e =>
    let port := w.ports a
    let r := e.take w.clock port.dataQueue
    (w.setEndpoint a r.1).setPort a
      { port with dataQueue := r.2.1, writer := r.2.2 <|> port.writer }

/-- Push a writer event to the bounded queue. -/
def emit (w : World) (event : WriterEvent) : World :=
  if maxWriterEvents ≤ w.writerEvents.length then { w with writerOverflow := true }
  else { w with writerEvents := w.writerEvents ++ [event] }

/-- `notify_mouse_report_written` for the report `taken`. -/
def notifyMouseReportWritten (w : World) (a : ℕ) (taken : Taken) (success : Bool) : World :=
  match w.endpoints a with
  | none => if success then w.note (.wrote taken false) else w
  | some e =>
    let r := e.notify taken.io w.clock success
    let committed := e.inst == taken.io.mouseEndpointInstance && e.commits taken.io
    let w := w.setEndpoint a r.1
    let w := if success then w.note (.wrote taken committed) else w
    match r.2 with
    | none => w
    | some event => w.emit event

/-- `endpoint_snapshot` -/
def endpointSnapshot (w : World) : EndpointSnapshot :=
  let unready : EndpointSnapshot := { generation := w.nextGeneration, snapshotNs := w.clock }
  match w.selected with
  | none => unready
  | some a =>
    match w.endpoints a with
    | none => unready
    | some e =>
      if e.latest.isEmpty then unready
      else
        { ready := true
          physical := e.physicalButtons
          persistent := e.persistentButtons
          scheduled := e.scheduledButtons
          supported := e.profile.supported
          xmin := e.profile.x.minimum
          xmax := e.profile.x.maximum
          ymin := e.profile.y.minimum
          ymax := e.profile.y.maximum
          physicalDx := e.physicalDx
          physicalDy := e.physicalDy
          pollUs := max 1 e.info.mousePollIntervalUs
          physicalAgeUs :=
            if e.lastMotionNs ≠ 0 ∧ e.lastMotionNs ≤ w.clock then
              saturate32 ((w.clock - e.lastMotionNs) / 1000)
            else 0xffffffff
          physicalReceived := saturate32 e.physicalReceived
          physicalSubmitted := saturate32 e.physicalSubmitted
          superseded := saturate32 e.superseded
          writerFailures := saturate32 e.writerFailures
          outputQueue := saturate16 (w.ports a).dataQueue.length
          syntheticPending := saturate16 e.synthetic.length
          generation := e.generation
          snapshotNs := w.clock
          lastMotionNs := e.lastMotionNs
          activity := e.activity
          layout := e.profile.fingerprint
          cumulativeX := e.cumulativeX
          cumulativeY := e.cumulativeY }

/-- `enqueue_report` -/
def enqueueReport (w : World) (a : EnqueueArgs) : World × EnqueueResult :=
  match w.selected with
  | none => (w, .notReady)
  | some address =>
    match w.endpoints address with
    | none => (w, .notReady)
    | some e =>
      let r := e.enqueue a w.clock
      let w := w.setEndpoint address r.1
      (if r.2 = .ok then w.note (.enqueued (e.itemFor a w.clock)) else w, r.2)

/-- `clear_synthetic_state` -/
def clearSyntheticState (w : World) : World × EndpointSnapshot :=
  let absent : EndpointSnapshot := { generation := w.nextGeneration, snapshotNs := w.clock }
  let w := w.note (.cleared (w.selectedEndpoint.bind (·.inflightItem)))
  match w.selected with
  | none => (w, absent)
  | some a =>
    match w.endpoints a with
    | none => (w, absent)
    | some e =>
      (w.setEndpoint a e.clear,
        { ready := !e.latest.isEmpty, physical := e.physicalButtons, generation := e.generation
          pollUs := max 1 e.info.mousePollIntervalUs, snapshotNs := w.clock })

/-- `take_writer_events` -/
def takeWriterEvents (w : World) : World × List WriterEvent :=
  ({ w with writerEvents := [] }, w.writerEvents)

/-- `take_writer_overflow` -/
def takeWriterOverflow (w : World) : World × Bool :=
  ({ w with writerOverflow := false }, w.writerOverflow)

end World

/-! ### The other threads -/

/-- A step of a thread other than the UDP server's. -/
inductive EnvStep
  | elapse (ns : ℕ)
  | learn (number : ℕ) (data : List Byte)
  | setProtocol (number : ℕ) (boot : Bool)
  | register (address number epNum pollUs : ℕ)
  | unregister (address : ℕ)
  | seed (address : ℕ) (data : List Byte)
  /-- The reader got a report from the device and queues it with the mixer. -/
  | physical (address epNum : ℕ) (data : List Byte)
  /-- The reader pushes it to the FIFO, which holds at most 32. -/
  | push (address : ℕ)
  | take (address : ℕ)
  | written (address : ℕ) (success : Bool)
deriving DecidableEq, Repr

/-- A layout or endpoint change. -/
def EnvStep.isLayout : EnvStep → Bool
  | .learn .. | .setProtocol .. | .register .. | .unregister .. => true
  | _ => false

/-- One step of another thread; a step its thread is not ready for does nothing. -/
def World.env (w : World) : EnvStep → World
  | .elapse ns => { w.note (.elapsed ns) with clock := w.clock + ns }
  | .learn number data => w.learnMouseDescriptor number data
  | .setProtocol number boot => w.setMouseProtocol number boot
  | .register a number epNum pollUs =>
    if a < 256 then w.registerMouseEndpoint a number epNum pollUs else w
  | .unregister a => w.unregisterMouseEndpoint a
  | .seed a data => w.seedMouseReport a data
  | .physical a epNum data =>
    if (w.ports a).reader = none then
      let r := w.queuePhysicalMouseReport a { ep := epNum, data }
      r.1.setPort a { w.ports a with reader := some r.2 }
    else w
  | .push a =>
    match (w.ports a).reader with
    | none => w
    | some io =>
      if (w.ports a).dataQueue.length < 32 then
        w.setPort a { w.ports a with
          dataQueue := (w.ports a).dataQueue ++ [io], reader := none }
      else w
  | .take a => if (w.ports a).writer = none then w.takeMouseReport a else w
  | .written a success =>
    match (w.ports a).writer with
    | none => w
    | some taken =>
      (w.setPort a { w.ports a with writer := none }).notifyMouseReportWritten a taken success

end UsbProxy
