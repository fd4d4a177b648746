import UsbProxy.Mixer.Runs
import UsbProxy.Proxy.Rules
import UsbProxy.Replay.Profile

/-!
# The proxied device (`proxy.cpp`)

The event loop passes control requests on to the device, as the rules leave them, and starts and
stops the reader and the writer of every endpoint as the host chooses configurations and alternate
settings.  A step that the program does not survive has no result: an index out of range, a queue
that is not there, a buffer that is overrun, a failed assertion, or a rule that never ends.
-/

namespace UsbProxy.Proxy

open Bits

/-! ### The device -/

structure EndpointDescriptor where
  address : Byte
  attributes : Byte
  interval : Byte

namespace EndpointDescriptor

def isIn (e : EndpointDescriptor) : Bool := e.address.getLsbD 7

/-- `usb_endpoint_type` -/
def transferType (e : EndpointDescriptor) : ℕ := e.attributes.toNat % 4

/-- `USB_ENDPOINT_XFER_INT` -/
def isInterrupt (e : EndpointDescriptor) : Bool := e.transferType == 3

end EndpointDescriptor

structure Altsetting where
  interfaceNumber : ℕ
  alternateSetting : ℕ
  interfaceClass : ℕ
  interfaceSubClass : ℕ
  interfaceProtocol : ℕ
  extra : List Byte
  endpoints : List EndpointDescriptor

/-- `USB_CLASS_HID` -/
def Altsetting.isHid (alt : Altsetting) : Bool := alt.interfaceClass == 3

/-- The mixer gets to know the endpoint. -/
def Altsetting.manages (alt : Altsetting) (e : EndpointDescriptor) : Bool :=
  alt.isHid && e.isIn && e.isInterrupt

structure Configuration where
  configurationValue : ℕ
  interfaces : List (List Altsetting)

/-- `host_device_desc`, the options, and the handles of `usb_raw_ep_enable`. -/
structure Device where
  configs : List Configuration
  /-- `libusb_get_device_speed` -/
  speed : ℕ := 2
  injectionEnabled : Bool := false
  injectionConfig : InjectionConfig := {}
  /-- `bmaxpacketsize0_must_greater_than_64` -/
  packet64 : Bool := true
  epNum : ℕ → ℕ := id

/-- Where an alternate setting stands. -/
structure Place where
  config : ℕ
  interface : ℕ
  altsetting : ℕ
deriving DecidableEq

def Device.interfaces (d : Device) (c : ℕ) : List (List Altsetting) :=
  ((d.configs[c]?).map (·.interfaces)).getD []

def Device.altsetting (d : Device) (p : Place) : Option Altsetting :=
  ((d.interfaces p.config)[p.interface]?).bind (·[p.altsetting]?)

/-- The rules for the transfers of an endpoint, when injection is enabled. -/
def Device.rules (d : Device) (e : EndpointDescriptor) : List EndpointRule :=
  if d.injectionEnabled then
    match e.transferType with
    | 1 => d.injectionConfig.isoc
    | 2 => d.injectionConfig.bulk
    | 3 => d.injectionConfig.int
    | _ => []
  else []

/-- The reader or the writer of an endpoint. -/
structure Thread where
  place : Place
  endpoint : ℕ
  writes : Bool
deriving DecidableEq

/-- The queue of an endpoint that the mixer does not manage, and what its threads are at.  The
queue of a managed one is in the mixer's `Port`. -/
structure Pipe where
  dataQueue : List Io := []
  /-- What the reader received and has not yet pushed. -/
  reader : Option Io := none
  /-- What the writer took and is not done with. -/
  writer : Option Io := none
  /-- What came in since the endpoint was started. -/
  received : List (List Byte) := []
  /-- What the writer is done with, and whether it got through. -/
  written : List (Io × Bool) := []
deriving DecidableEq

/-- What the host hears. -/
inductive Response
  | stall
  | write (data : List Byte)
  | read (data : List Byte)
deriving DecidableEq

structure Gadget where
  world : World := {}
  currentConfig : ℕ := 0
  /-- `current_altsetting` of an interface of a configuration. -/
  currentAltsetting : ℕ → ℕ → ℕ := fun _ _ => 0
  /-- `set_configuration_done_once` -/
  configured : Bool := false
  /-- The endpoints are enabled. -/
  up : Place → Bool := fun _ => false
  /-- The thread has not left its loop. -/
  live : Thread → Bool := fun _ => false
  /-- The queues of an altsetting's unmanaged endpoints, by their index. -/
  pipes : Place → ℕ → Pipe := fun _ _ => {}
  /-- What was recorded. -/
  calls : List Call := []
  /-- What the device was asked by `control_request`. -/
  asked : List (CaptureSetup × List Byte) := []
  /-- What the host heard to its requests. -/
  heard : List (CaptureSetup × Response) := []

/-- What the device, the host, the kernel and the scheduler make of a step. -/
structure Outside where
  /-- The reply to `control_request`. -/
  device : Option (List Byte) := none
  /-- The data of `usb_raw_ep0_read`, when it does not fail. -/
  acked : Option (List Byte) := some []
  /-- How much `usb_raw_ep0_write` transfers. -/
  sent : ℕ := 0
  stalled : Bool := true
  /-- What is in `io.data` before anything is read. -/
  stack : ℕ → Byte := fun _ => 0
  /-- The report descriptor of an interface, when it is asked for so many bytes. -/
  report : ℕ → ℕ → List Byte := fun _ _ => []
  /-- The protocol of a boot mouse; 1 when it is not told. -/
  protocol : ℕ → ℕ := fun _ => 1
  /-- The threads that see `please_stop_eps` in time. -/
  seen : Thread → Bool := fun _ => false
  /-- How the write ends in which the writer of an address is interrupted. -/
  wrote : ℕ → Bool := fun _ => false

/-! ### Starting and stopping endpoints -/

/-- `mouse_poll_interval_us` -/
def pollUs (d : Device) (e : EndpointDescriptor) : ℕ :=
  if 3 ≤ d.speed then 125 * 2 ^ (max 1 (min 16 e.interval.toNat) - 1)
  else max 1 e.interval.toNat * 1000

/-- `report_length` after the class-specific descriptors of an interface. -/
def extraLength : ℕ → List Byte → ℕ → ℕ
  | 0, _, length => length
  | fuel + 1, extra, length =>
    let size := byteAt extra 0
    if extra.length < 2 ∨ size < 2 ∨ extra.length < size then length
    else
      extraLength fuel (extra.drop size)
        (if byteAt extra 1 = 0x21 ∧ 9 ≤ size then
          ReplayProfile.reportLength ((extra.take size).drop 6) length
        else length)

/-- The mixer learns the report layouts of an interface. -/
def learnInterface (o : Outside) (alt : Altsetting) (w : World) : World :=
  if alt.isHid then
    let length := extraLength alt.extra.length alt.extra 0
    let report := if 0 < length ∧ length ≤ 4096 then
      (o.report alt.interfaceNumber length).take length else []
    let protocol := if alt.interfaceSubClass = 1 ∧ alt.interfaceProtocol = 2 then
      o.protocol alt.interfaceNumber else 1
    (w.env (.learn alt.interfaceNumber report)).env
      (.setProtocol alt.interfaceNumber (protocol == 0))
  else w

/-- `register_mouse_endpoint`, for the endpoints it is called for. -/
def registerEndpoint (d : Device) (alt : Altsetting) (w : World) (e : EndpointDescriptor) : World :=
  if alt.manages e then
    w.env (.register e.address.toNat alt.interfaceNumber (d.epNum e.address.toNat) (pollUs d e))
  else w

/-- The assertions of `process_eps`. -/
def EndpointDescriptor.Sound (e : EndpointDescriptor) : Prop :=
  e.address.toNat % 16 ≠ 0 ∧ e.transferType ≠ 0

instance (e : EndpointDescriptor) : Decidable e.Sound := inferInstanceAs (Decidable (_ ∧ _))

/-- `process_eps` -/
def processEps (d : Device) (o : Outside) (p : Place) (g : Gadget) : Option Gadget :=
  match d.altsetting p with
  | none => none
  | some alt =>
    if ∀ e ∈ alt.endpoints, e.Sound then
      some { g with
        world := alt.endpoints.foldl (registerEndpoint d alt) (learnInterface o alt g.world)
        up := Function.update g.up p true
        live := fun t => if t.place = p then decide (t.endpoint < alt.endpoints.length)
          else g.live t
        pipes := Function.update g.pipes p fun _ => {} }
    else none

/-- An endpoint's threads are joined and its queue is deleted. -/
def releaseEndpoint (o : Outside) (w : World) (e : EndpointDescriptor) : World :=
  let a := e.address.toNat
  ((w.env (.unregister a)).env (.written a (o.wrote a))).setPort a {}

/-- `terminate_eps`; the queues of endpoints that are not up are not there. -/
def terminateEps (d : Device) (o : Outside) (p : Place) (g : Gadget) : Option Gadget :=
  match d.altsetting p with
  | none => none
  | some alt =>
    if alt.endpoints ≠ [] ∧ g.up p = false then none
    else some { g with
      world := alt.endpoints.foldl (releaseEndpoint o) g.world
      up := Function.update g.up p false
      live := fun t => decide (t.place ≠ p) && g.live t && !o.seen t
      pipes := Function.update g.pipes p fun _ => {} }

/-- A loop over the interfaces of a configuration. -/
def overPlaces (f : Place → Gadget → Option Gadget) : List Place → Gadget → Option Gadget
  | [], g => some g
  | p :: rest, g => (f p g).bind (overPlaces f rest)

/-- The interfaces of the configuration `c`, in the altsettings of the configuration `c'`. -/
def places (d : Device) (g : Gadget) (c c' : ℕ) : List Place :=
  (List.range (d.interfaces c').length).map fun i => ⟨c, i, g.currentAltsetting c' i⟩

/-- The interface is in an altsetting. -/
def Gadget.choose (g : Gadget) (c i k : ℕ) : Gadget :=
  { g with
    currentAltsetting := fun c' i' =>
      if c' = c ∧ i' = i then k else g.currentAltsetting c' i' }

/-! ### Endpoint zero -/

def Gadget.fetched (g : Gadget) (type : ℕ) (request : Option CaptureSetup) : Gadget :=
  { g with calls := g.calls ++ [.event type request] }

/-- `usb_raw_ep0_stall` -/
def Gadget.stall (g : Gadget) (o : Outside) (s : CaptureSetup) : Gadget :=
  if o.stalled then
    { g with calls := g.calls ++ [.reply (ascii "stall") []], heard := g.heard ++ [(s, .stall)] }
  else g

/-- `usb_raw_ep0_write` -/
def Gadget.write (g : Gadget) (o : Outside) (s : CaptureSetup) (data : List Byte) : Gadget :=
  { g with
    calls := g.calls ++ [.reply (ascii "ack") (data.take o.sent)]
    heard := g.heard ++ [(s, .write (data.take o.sent))] }

/-- `usb_raw_ep0_read` -/
def Gadget.ack (g : Gadget) (o : Outside) (s : CaptureSetup) : Gadget :=
  match o.acked with
  | none => g
  | some data =>
    { g with
      calls := g.calls ++ [.reply (ascii "ack") data], heard := g.heard ++ [(s, .read data)] }

/-- `control_request` -/
def Gadget.ask (g : Gadget) (s : CaptureSetup) (data : List Byte) : Gadget :=
  { g with asked := g.asked ++ [(s, data)] }

/-- After a reset or a disconnect. -/
def reset (d : Device) (o : Outside) (g : Gadget) : Option Gadget :=
  if g.configured then
    (overPlaces (fun p g => (terminateEps d o p g).map (·.choose p.config p.interface 0))
      (places d g g.currentConfig g.currentConfig) g).map
      fun g => { g with currentConfig := 0, configured := false }
  else some g

/-- The rules for a control transfer, when injection is enabled. -/
def inject (fuel : ℕ) (d : Device) (t : Transfer) : Option Transfer :=
  if d.injectionEnabled then controlInjection fuel d.injectionConfig.control t else some t

/-- The packet size of a device descriptor, for UDCs that want 64. -/
def widen (d : Device) (s : CaptureSetup) (data : List Byte) : List Byte :=
  if d.packet64 ∧ s.type.toNat / 32 % 4 = 0 ∧ s.request = 6#8 ∧ s.value.toNat / 2 ^ 8 = 1 ∧
      byteAt data 7 < 64 then data.set 7 64
  else data

/-- The mixer learns a report descriptor that the host reads. -/
def overhear (s : CaptureSetup) (data : List Byte) (w : World) : World :=
  if s.type = 0x81#8 ∧ s.request = 6#8 ∧ s.value.toNat / 2 ^ 8 = 0x22 then
    w.env (.learn s.index.toNat data)
  else w

/-- A control request to the host. -/
def inRequest (fuel : ℕ) (d : Device) (o : Outside) (s : CaptureSetup) (g : Gadget) :
    Option Gadget :=
  let g := g.ask s []
  match o.device with
  | none => some (g.stall o s)
  | some reply =>
    match inject fuel d ⟨s, { data := reply.take s.length.toNat }, .none⟩ with
    | none => none
    | some ⟨_, _, .ignore⟩ => some g
    | some ⟨_, _, .stall⟩ => some (g.stall o s)
    | some ⟨s', io, .none⟩ =>
      some ({ g with world := overhear s' io.data g.world }.write o s (widen d s' io.data))

/-- SET_CONFIGURATION -/
def setConfiguration (d : Device) (o : Outside) (s : CaptureSetup) (g : Gadget) : Option Gadget :=
  match d.configs.findIdx? fun c => c.configurationValue == s.value.toNat with
  | none => some g
  | some c =>
    -- the altsettings and their number are those of the new configuration
    let stopped := if g.configured then
      overPlaces (terminateEps d o) (places d g g.currentConfig c) g else some g
    (stopped.bind fun g =>
      overPlaces (fun p g => processEps d o p (g.choose c p.interface 0))
        ((List.range (d.interfaces c).length).map (⟨c, ·, 0⟩)) { g with currentConfig := c }).map
      fun g => { g with configured := true }.ack o s

/-- SET_INTERFACE -/
def setInterface (d : Device) (o : Outside) (s : CaptureSetup) (g : Gadget) : Option Gadget :=
  let c := g.currentConfig
  match (d.interfaces c).findIdx? fun alts =>
      alts.head?.any fun alt => alt.interfaceNumber == s.index.toNat with
  | none => some g
  | some i =>
    match ((d.interfaces c).getD i []).findIdx? fun alt =>
        alt.alternateSetting == s.value.toNat with
    | none => some g
    | some k =>
      if k = g.currentAltsetting c i then some (g.ack o s)
      else
        ((terminateEps d o ⟨c, i, g.currentAltsetting c i⟩ g).bind (processEps d o ⟨c, i, k⟩)).map
          fun g => (g.choose c i k).ack o s

/-- SET_PROTOCOL of a boot mouse, once the device took it. -/
def followProtocol (d : Device) (s : CaptureSetup) (g : Gadget) : Gadget :=
  if s.type = 0x21#8 ∧ s.request = 0x0b#8 ∧ s.value.toNat ≤ 1 then
    { g with
      world := (places d g g.currentConfig g.currentConfig).foldl
        (fun w p =>
          if (d.altsetting p).any fun alt => alt.interfaceNumber == s.index.toNat && alt.isHid &&
              alt.interfaceSubClass == 1 && alt.interfaceProtocol == 2 then
            w.env (.setProtocol s.index.toNat (s.value == 0))
          else w)
        g.world }
  else g

/-- Any other control request from the host; `control_data` has the length the host gave. -/
def outRequest (fuel : ℕ) (d : Device) (o : Outside) (s : CaptureSetup) (g : Gadget) :
    Option Gadget :=
  match inject fuel d ⟨s, { data := (List.range s.length.toNat).map o.stack }, .none⟩ with
  | none => none
  | some ⟨_, _, .ignore⟩ => some g
  | some ⟨_, _, .stall⟩ => some (g.stall o s)
  | some ⟨s', io, .none⟩ =>
    if s'.length = 0 then
      let g := g.ask s' []
      match o.device with
      | none => some (g.stall o s)
      | some _ => some ((followProtocol d s' g).ack o s)
    else
      match o.acked with
      | none => some g
      | some payload =>
        if s.length.toNat < s'.length.toNat then none
        else
          let data := payload.take io.data.length ++ io.data.drop payload.length
          some ((g.ack o s).ask s' (data.take s'.length.toNat))

/-- A control event. -/
def control (fuel : ℕ) (d : Device) (o : Outside) (s : CaptureSetup) (g : Gadget) :
    Option Gadget :=
  let g := g.fetched 2 (some s)
  if 4096 < s.length.toNat then some (g.stall o s)
  else if s.type.getLsbD 7 then inRequest fuel d o s g
  else if s.type.toNat / 32 % 4 = 0 ∧ s.request = 9#8 then setConfiguration d o s g
  else if s.type.toNat / 32 % 4 = 0 ∧ s.request = 11#8 then setInterface d o s g
  else outRequest fuel d o s g

/-! ### The threads of the endpoints -/

/-- The endpoint of a thread that runs. -/
def served (d : Device) (g : Gadget) (t : Thread) : Option (Altsetting × EndpointDescriptor) :=
  if g.live t then
    (d.altsetting t.place).bind fun alt => (alt.endpoints[t.endpoint]?).map (alt, ·)
  else none

/-- The first report of an endpoint is recorded. -/
def sampled (w : World) (a : ℕ) (data : List Byte) : List Call :=
  match w.endpoints a with
  | none => []
  | some e =>
    if e.latest = [] ∧ (e.matchingProfile (w.descriptors e.interfaceNumber) data).isSome then
      [.report a e.interfaceNumber data]
    else []

/-- What a reader makes something of; a device that sends nothing is read again. -/
def EndpointDescriptor.Accepts (e : EndpointDescriptor) (data : List Byte) : Prop :=
  (e.isIn → data ≠ []) ∧ data.length ≤ 4096

instance (e : EndpointDescriptor) (data : List Byte) : Decidable (e.Accepts data) :=
  inferInstanceAs (Decidable (_ ∧ _))

/-- The queue has room for the reader; it has to wait only for what comes from the device. -/
def EndpointDescriptor.HasRoom (e : EndpointDescriptor) (queue : List Io) : Prop :=
  e.isIn → queue.length < 32

instance (e : EndpointDescriptor) (queue : List Io) : Decidable (e.HasRoom queue) :=
  inferInstanceAs (Decidable (_ → _))

/-- A write gets through; `send_data` sends nothing on an isochronous endpoint. -/
def EndpointDescriptor.delivers (e : EndpointDescriptor) (success : Bool) : Bool :=
  success && (e.isIn || e.transferType != 1)

def Gadget.setPipe (g : Gadget) (t : Thread) (pipe : Pipe) : Gadget :=
  { g with
    pipes := Function.update g.pipes t.place (Function.update (g.pipes t.place) t.endpoint pipe) }

/-- The reader holds no transfer and does not wait for room. -/
def Gadget.Receives (g : Gadget) (t : Thread) (alt : Altsetting) (e : EndpointDescriptor) : Prop :=
  if alt.manages e then
    let port := g.world.ports e.address.toNat
    port.reader = none ∧ e.HasRoom port.dataQueue
  else
    let pipe := g.pipes t.place t.endpoint
    pipe.reader = none ∧ e.HasRoom pipe.dataQueue

instance (g : Gadget) (t : Thread) (alt : Altsetting) (e : EndpointDescriptor) :
    Decidable (g.Receives t alt e) :=
  inferInstanceAs (Decidable (ite _ _ _))

/-- `ep_loop_read`, until the queue: a transfer came in, and the rules of the endpoint let it be. -/
def readTransfer (fuel : ℕ) (d : Device) (t : Thread) (data : List Byte) (g : Gadget) :
    Option Gadget :=
  match served d g t with
  | none => some g
  | some (alt, e) =>
    let a := e.address.toNat
    let pipe := g.pipes t.place t.endpoint
    if g.Receives t alt e ∧ e.Accepts data then
      (endpointInjection fuel a (d.rules e) { ep := d.epNum a, data }).map fun io =>
        if alt.manages e then
          { g with
            world := g.world.env (.physical a io.ep io.data)
            calls := g.calls ++ sampled g.world a io.data }
        else
          g.setPipe t { pipe with reader := some io, received := pipe.received ++ [data] }
    else some g

/-- `ep_loop_read`: what was received goes to the queue. -/
def Pipe.push (e : EndpointDescriptor) (pipe : Pipe) : Pipe :=
  match pipe.reader with
  | none => pipe
  | some io =>
    if e.HasRoom pipe.dataQueue then
      { pipe with dataQueue := pipe.dataQueue ++ [io], reader := none }
    else pipe

/-- `ep_loop_write`: the front of the queue is taken. -/
def Pipe.take (pipe : Pipe) : Pipe :=
  match pipe.writer, pipe.dataQueue with
  | none, io :: rest => { pipe with dataQueue := rest, writer := some io }
  | _, _ => pipe

/-- `ep_loop_write`: the host or the device was given what was taken. -/
def Pipe.finish (e : EndpointDescriptor) (success : Bool) (pipe : Pipe) : Pipe :=
  match pipe.writer with
  | none => pipe
  | some io =>
    { pipe with writer := none, written := pipe.written ++ [(io, e.delivers success)] }

/-- A step of a thread: in the mixer for a managed endpoint, else in the endpoint's pipe. -/
def threadStep (d : Device) (t : Thread) (x : ℕ → EnvStep)
    (f : EndpointDescriptor → Pipe → Pipe) (g : Gadget) : Gadget :=
  match served d g t with
  | none => g
  | some (alt, e) =>
    if alt.manages e then { g with world := g.world.env (x e.address.toNat) }
    else g.setPipe t (f e (g.pipes t.place t.endpoint))

/-! ### Runs -/

/-- A step of the event loop, of an endpoint's threads, of the server's thread or of the clock. -/
inductive Step
  | control (o : Outside) (s : CaptureSetup)
  /-- Any other event. -/
  | event (o : Outside) (type : ℕ)
  | read (t : Thread) (data : List Byte)
  | push (t : Thread)
  | take (t : Thread)
  | written (t : Thread) (success : Bool)
  /-- The thread leaves its loop. -/
  | leave (t : Thread)
  | server (x : MixerStep)
  | elapse (ns : ℕ)

/-- One step; a step its thread is not ready for does nothing. -/
def step (fuel : ℕ) (d : Device) (g : Gadget) : Step → Option Gadget
  | .control o s => control fuel d o s g
  | .event o type =>
    if type = 5 ∨ type = 6 then reset d o (g.fetched type none) else some (g.fetched type none)
  | .read t data => if t.writes then some g else readTransfer fuel d t data g
  | .push t => some (if t.writes then g else threadStep d t .push Pipe.push g)
  | .take t => some (if t.writes then threadStep d t .take (fun _ => Pipe.take) g else g)
  | .written t success =>
    some (if t.writes then threadStep d t (.written · success) (Pipe.finish · success) g else g)
  | .leave t => some { g with live := Function.update g.live t false }
  | .server (.thread _) => some g
  | .server x => some { g with world := g.world.mix x }
  | .elapse ns => some { g with world := g.world.env (.elapse ns) }

/-- Recording is on from the start. -/
def start (d : Device) : Gadget := { calls := [.speed (if d.speed = 3 then 3 else 2)] }

def run (fuel : ℕ) (d : Device) : Gadget → List Step → Option Gadget
  | g, [] => some g
  | g, x :: rest => (step fuel d g x).bind fun g => run fuel d g rest

end UsbProxy.Proxy
