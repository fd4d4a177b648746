import UsbProxy.Mixer.Runs
import UsbProxy.Replay.Profile

/-!
# The replayed device (`usb_replay.cpp`)

The event loop answers the host's control requests from a capture, brings the endpoints up and takes
them down, and a writer thread for each mouse endpoint sends the mixer's reports and repeats the
last one at the idle rate.  The mixer is the one of the proxy; no device reads into it.
-/

namespace UsbProxy.Replay

open Bits

/-- `MAX_TRANSFER_SIZE`, the size of `io.data`. -/
def maxTransferSize : ℕ := 4096

/-- What does not change while the replayer runs: the capture, and the handles that
`usb_raw_ep_enable` returns for the endpoint addresses. -/
structure Device where
  profile : ReplayProfile
  epNum : ℕ → ℕ := id

/-- An endpoint of the replayer, with what its writer thread is at. -/
structure Endpoint where
  spec : ReplayEndpoint
  mouse : Bool := false
  profile : MouseProfile := {}
  idle : ℕ := 0
  /-- The idle rate that the writer read before it waits. -/
  rate : ℕ := 0
  /-- The bytes of `last` up to its length. -/
  last : List Byte := []
  /-- The repeated report (`timed`) that is being written. -/
  timed : Option (List Byte) := none
  /-- No write has failed, and the thread is still in its loop. -/
  running : Bool := true
deriving DecidableEq

def Endpoint.address (e : Endpoint) : ℕ := e.spec.address

structure Gadget where
  world : World := {}
  endpoints : List Endpoint := []
  idle : ℕ → ℕ := fun _ => 0
  protocol : ℕ → ℕ := fun _ => 0
  configuration : ℕ := 0
  remoteWakeup : Bool := false

/-- What the host gets on endpoint zero. -/
inductive Response
  | stall
  | write (data : List Byte)
  | read (length : ℕ)
deriving DecidableEq

/-! ### Bringing the endpoints up and down -/

/-- `mouse_poll_interval_us` -/
def pollUs (d : Device) (spec : ReplayEndpoint) : ℕ :=
  let interval := byteAt spec.descriptor 6
  if 3 ≤ d.profile.speed then 125 * 2 ^ (max 1 (min 16 interval) - 1) else max 1 interval * 1000

/-- The interfaces' layouts, told to the mixer. -/
def learn (d : Device) (protocol : ℕ → ℕ) (w : World) : World :=
  d.profile.interfaces.foldl
    (fun w i =>
      (w.env (.learn i.number i.report)).env (.setProtocol i.number (protocol i.number == 0)))
    w

/-- The layout of a mouse endpoint: the boot protocol's, else the one of the recorded report, else
the first. -/
def layoutFor (protocol : ℕ) (sample : Option (List Byte)) (first : MouseProfile)
    (rest : List MouseProfile) : MouseProfile :=
  if protocol = 0 then bootProfile
  else ((first :: rest).find? fun layout => sample.any layout.accepts).getD first

/-- The report a mouse endpoint starts from: the recorded one without its motion and buttons. -/
def firstReport (layout : MouseProfile) (sample : Option (List Byte)) : List Byte :=
  let data := (sample.filter layout.accepts).getD (List.replicate layout.size 0)
  let data := if layout.id = 0 then data else data.set 0 (BitVec.ofNat 8 layout.id)
  (layout.encode {} data).1

/-- What `seed_mouse_report` leaves in the report it is given. -/
def seeded (w : World) (a : ℕ) (data : List Byte) : List Byte :=
  match (w.endpoints a).bind fun e => e.seed (w.descriptors e.interfaceNumber) data with
  | none => data
  | some e => e.latest

/-- An IN endpoint of the interface `i`. -/
def outfit (d : Device) (idle protocol : ℕ → ℕ) (r : World × Endpoint) (i : ReplayInterface) :
    World × Endpoint :=
  if i.number = r.2.spec.interfaceNumber then
    match parseMouseDescriptor i.report with
    | [] => r
    | first :: rest =>
      let sample := d.profile.samples r.2.address
      let layout := layoutFor (protocol i.number) sample first rest
      let data := firstReport layout sample
      (r.1.env (.seed r.2.address data),
        { r.2 with
          mouse := true, profile := layout, idle := idle i.number
          last := seeded r.1 r.2.address data })
  else r

/-- One endpoint of `enable`. -/
def bringUp (d : Device) (idle protocol : ℕ → ℕ) (w : World) (spec : ReplayEndpoint) :
    World × Endpoint :=
  if spec.isIn then
    d.profile.interfaces.foldl (outfit d idle protocol)
      (w.env (.register spec.address spec.interfaceNumber (d.epNum spec.address) (pollUs d spec)),
        { spec })
  else (w, { spec })

/-- The loop of `enable` over the endpoints. -/
def bringAllUp (d : Device) (idle protocol : ℕ → ℕ) :
    World → List ReplayEndpoint → World × List Endpoint
  | w, [] => (w, [])
  | w, spec :: specs =>
    let r := bringUp d idle protocol w spec
    let rest := bringAllUp d idle protocol r.1 specs
    (rest.1, r.2 :: rest.2)

/-- `enable` -/
def enable (d : Device) (g : Gadget) : Gadget :=
  let r := bringAllUp d g.idle g.protocol (learn d g.protocol g.world) d.profile.endpoints
  { g with
    world := r.1, endpoints := g.endpoints ++ r.2, configuration := byteAt d.profile.config 5 }

/-- `disable`; a writer that is interrupted in a write reports how it ended, `wrote` for its
address. -/
def disable (g : Gadget) (wrote : ℕ → Bool) : Gadget :=
  let w := g.endpoints.foldl (fun w e => w.env (.unregister e.address)) g.world
  let w := g.endpoints.foldl (fun w e => w.env (.written e.address (wrote e.address))) w
  { g with world := w, endpoints := [], configuration := 0 }

/-! ### Control requests -/

/-- `known_interface` -/
def known (d : Device) (s : CaptureSetup) : Bool :=
  d.profile.interfaces.any fun i => i.number == s.index.toNat

/-- GET_STATUS of the device, an interface or an endpoint. -/
def getStatus (d : Device) (g : Gadget) (s : CaptureSetup) : Option (List Byte) :=
  let power : ℕ := if (byteAt d.profile.config 7).testBit 6 then 1 else 0
  let wakeup : ℕ := if g.remoteWakeup then 2 else 0
  if s.type = 0x80#8 ∧ s.index = 0 then some [BitVec.ofNat 8 (power + wakeup), 0]
  else if s.type = 0x81#8 ∧ g.configuration ≠ 0 ∧ known d s then some [0, 0]
  else if s.type = 0x82#8 ∧ g.endpoints.any (fun e => e.address == s.index.toNat) then some [0, 0]
  else none

/-- SET_IDLE, for all reports of the interface or the one its low byte names. -/
def setIdle (g : Gadget) (s : CaptureSetup) : Option Gadget :=
  let rate := s.value.toNat / 2 ^ 8
  let id := s.value.toNat % 2 ^ 8
  let hit (e : Endpoint) : Bool := e.spec.interfaceNumber == s.index.toNat && e.mouse &&
    (id == 0 || e.profile.id == id)
  if id = 0 ∨ g.endpoints.any hit then
    some { g with
      idle := Function.update g.idle s.index.toNat rate
      endpoints := g.endpoints.map fun e => if hit e then { e with idle := rate } else e }
  else none

/-- SET_PROTOCOL of a boot mouse. -/
def setProtocol (d : Device) (g : Gadget) (wrote : ℕ → Bool) (s : CaptureSetup) : Option Gadget :=
  if d.profile.interfaces.any fun i =>
      i.number == s.index.toNat && i.subclass == 1 && i.protocol == 2 then
    let g := disable g wrote
    some (enable d { g with protocol := Function.update g.protocol s.index.toNat s.value.toNat })
  else none

/-- GET_REPORT: the input report of a mouse endpoint as it was last written. -/
def getReport (g : Gadget) (s : CaptureSetup) : Option (List Byte) :=
  (g.endpoints.filter fun e => e.spec.interfaceNumber == s.index.toNat && e.mouse &&
    e.profile.id == s.value.toNat % 2 ^ 8).getLast?.map (·.last)

/-- A class request to a known interface of the configured device. -/
def classRequest (d : Device) (g : Gadget) (wrote : ℕ → Bool) (s : CaptureSetup) :
    Option (Gadget × List Byte) :=
  if s.type = 0x21#8 ∧ s.request = 0x0a#8 ∧ s.length = 0 then (setIdle g s).map (·, [])
  else if s.type = 0xa1#8 ∧ s.request = 2#8 ∧ s.value.toNat / 2 ^ 8 = 0 then
    some (g, [BitVec.ofNat 8 (g.idle s.index.toNat)])
  else if s.type = 0xa1#8 ∧ s.request = 3#8 ∧ s.value = 0 then
    some (g, [BitVec.ofNat 8 (g.protocol s.index.toNat)])
  else if s.type = 0x21#8 ∧ s.request = 0x0b#8 ∧ s.length = 0 ∧ s.value.toNat ≤ 1 then
    (setProtocol d g wrote s).map (·, [])
  else if s.type = 0xa1#8 ∧ s.request = 1#8 ∧ s.value.toNat / 2 ^ 8 = 1 then
    (getReport g s).map (g, ·)
  else none

/-- SET_CONFIGURATION -/
def setConfiguration (d : Device) (g : Gadget) (wrote : ℕ → Bool) (s : CaptureSetup) : Gadget :=
  let g := disable g wrote
  let numbers := d.profile.interfaces.map (·.number)
  let g := { g with
    idle := fun n => if n ∈ numbers then 0 else g.idle n
    protocol := fun n => if n ∈ numbers then 1 else g.protocol n }
  if s.value = 0 then g else enable d g

/-- The request that is understood, its effect and its answer; `none` leaves `ok` false. -/
def answer (d : Device) (g : Gadget) (wrote : ℕ → Bool) (s : CaptureSetup) :
    Option (Gadget × List Byte) :=
  if (s.type = 0x80#8 ∨ s.type = 0x81#8) ∧ s.request = 6#8 then
    (d.profile.lookup s.type s.value s.index).map (g, ·)
  else if s.type = 0x80#8 ∧ s.request = 8#8 ∧ s.value = 0 ∧ s.index = 0 then
    some (g, [BitVec.ofNat 8 g.configuration])
  else if s.type = 0#8 ∧ s.request = 9#8 ∧ s.index = 0 ∧ s.length = 0 ∧
      (s.value = 0 ∨ s.value.toNat = byteAt d.profile.config 5) then
    some (setConfiguration d g wrote s, [])
  else if s.type = 0x81#8 ∧ s.request = 10#8 ∧ g.configuration ≠ 0 ∧ known d s ∧ s.value = 0 then
    some (g, [0])
  else if s.type = 1#8 ∧ s.request = 11#8 ∧ g.configuration ≠ 0 ∧ known d s ∧ s.value = 0 ∧
      s.length = 0 then
    some (g, [])
  else if s.request = 0#8 ∧ s.value = 0 ∧ s.length = 2 then (getStatus d g s).map (g, ·)
  else if s.type = 0#8 ∧ s.value = 1 ∧ s.index = 0 ∧ s.length = 0 ∧ g.configuration ≠ 0 ∧
      (byteAt d.profile.config 7).testBit 5 ∧ (s.request = 3#8 ∨ s.request = 1#8) then
    some ({ g with remoteWakeup := s.request == 3#8 }, [])
  else if g.configuration ≠ 0 ∧ known d s ∧ (s.type = 0xa1#8 ∨ s.type = 0x21#8) then
    classRequest d g wrote s
  else none

/-- A control event. -/
def control (d : Device) (g : Gadget) (wrote : ℕ → Bool) (s : CaptureSetup) : Gadget × Response :=
  if maxTransferSize < s.length.toNat then (g, .stall)
  else
    match answer d g wrote s with
    | none => (g, .stall)
    | some (g, data) =>
      (g, if s.type.getLsbD 7 then .write (data.take s.length.toNat) else .read s.length.toNat)

/-! ### The writer threads -/

/-- The mixer has something for the writer (`synthetic_pending`, or a report in the queue). -/
def pending (g : Gadget) (a : ℕ) : Bool :=
  !(g.world.ports a).dataQueue.isEmpty ||
    (g.world.endpoints a).any fun e => e.info.mouseSyntheticPending

/-- The writer of the endpoint waits for its condition. -/
def waiting (g : Gadget) (e : Endpoint) : Bool :=
  e.mouse && e.running && e.timed.isNone && (g.world.ports e.address).writer.isNone

/-- Change the endpoint at an address. -/
def Gadget.modify (g : Gadget) (a : ℕ) (f : Endpoint → Endpoint) : Gadget :=
  { g with endpoints := g.endpoints.map fun e => if e.address = a then f e else e }

/-- After a write of `data`: a failed one ends the loop; else `last` is the report without its
motion. -/
def Endpoint.wrote (e : Endpoint) (data : List Byte) (result : ℤ) : Endpoint :=
  if result < 0 then { e with timed := none, rate := 0, running := false }
  else { e with timed := none, rate := 0, last := e.profile.zeroRelative data }

/-- The write a writer is at ends with `result`. -/
def written (g : Gadget) (a : ℕ) (result : ℤ) : Gadget :=
  match g.endpoints.find? (·.address == a) with
  | none => g
  | some e =>
    match e.timed, (g.world.ports a).writer with
    | some data, _ => g.modify a fun e => e.wrote data result
    | none, some taken =>
      { g with world := g.world.env (.written a (result == taken.io.data.length)) }.modify a
        fun e => e.wrote taken.io.data result
    | none, none => g

/-! ### Runs -/

/-- A step of the event loop, of a writer thread, of the UDP server's thread or of the clock. -/
inductive Step
  | control (s : CaptureSetup) (wrote : ℕ → Bool)
  /-- A bus reset or a disconnect. -/
  | reset (wrote : ℕ → Bool)
  /-- A writer reads the idle rate, and starts to wait. -/
  | wait (a : ℕ)
  /-- A writer asks the mixer for a report. -/
  | take (a : ℕ)
  /-- A writer's wait times out and it repeats the last report. -/
  | again (a : ℕ)
  | written (a : ℕ) (result : ℤ)
  /-- An access of the server to the mixer. -/
  | server (x : MixerStep)
  | elapse (ns : ℕ)

/-- One step; a step its thread is not ready for does nothing. -/
def step (d : Device) (g : Gadget) : Step → Gadget
  | .control s wrote => (control d g wrote s).1
  | .reset wrote => { disable g wrote with remoteWakeup := false }
  | .wait a => g.modify a fun e => if waiting g e then { e with rate := e.idle } else e
  | .take a =>
    if g.endpoints.any (fun e => e.address == a && waiting g e) ∧ pending g a then
      { g with world := g.world.env (.take a) }.modify a fun e => { e with rate := 0 }
    else g
  | .again a =>
    if pending g a then g
    else g.modify a fun e =>
      if waiting g e ∧ e.rate ≠ 0 ∧ e.last ≠ [] then { e with rate := 0, timed := some e.last }
      else e
  | .written a result => written g a result
  | .server (.thread _) => g
  | .server x => { g with world := g.world.mix x }
  | .elapse ns => { g with world := g.world.env (.elapse ns) }

def run (d : Device) (g : Gadget) (steps : List Step) : Gadget := steps.foldl (step d) g

/-- The replayer gets there. -/
def Gadget.Reachable (d : Device) (g : Gadget) : Prop := ∃ steps, g = run d {} steps

end UsbProxy.Replay
