import UsbProxy.Hid.Descriptor
import Mathlib.Data.List.DropRight

/-!
# One mouse endpoint of the mixer (`mouse_mixer.cpp`)

The record `Endpoint` of the registry and what the mixer functions do to it under the registry
lock.  Report buffers are byte lists of `inner.length` bytes; counters and times are natural
numbers; `UINT64_MAX` in `guard_activity` ("no guard") is `none`.
-/

namespace UsbProxy

open Bits

inductive ReportKind
  | none | movement | persistent | clickPress | clickRelease | releaseAll
  | transactionOut | transactionPress | transactionRelease | transactionReturn
deriving DecidableEq, Repr

/-- `kind >= REPORT_TRANSACTION_OUT` -/
def ReportKind.isTransaction : ReportKind → Bool
  | .transactionOut | .transactionPress | .transactionRelease | .transactionReturn => true
  | _ => false

/-- The kinds whose successful write is reported to the server. -/
def ReportKind.reported : ReportKind → Bool
  | .clickPress | .clickRelease | .releaseAll => true
  | kind => kind.isTransaction

inductive EnqueueResult
  | ok | notReady | unsupported | queueFull
deriving DecidableEq, Repr

def maxSyntheticItems : ℕ := 8
def maxWriterEvents : ℕ := 32

structure SyntheticItem where
  id : ℕ := 0
  generation : ℕ := 0
  deadlineNs : ℕ := 0
  physicalBarrier : ℕ := 0
  session : ℕ := 0
  commandId : ℕ := 0
  guardActivity : Option ℕ := none
  clickIndex : ℕ := 0
  remaining : MouseCommand := {}
  persistent : Mask := 0
  scheduled : Mask := 0
  clickButton : ℕ := 0
  kind : ReportKind := .none
  latest : Bool := false
  buttonsCommitted : Bool := false
deriving DecidableEq, Repr

/-- A report buffer with its metadata (`usb_raw_transfer_io`). -/
structure Io where
  ep : ℕ := 0
  data : List Byte := []
  mouseGeneration : ℕ := 0
  mouseEndpointInstance : ℕ := 0
  clickSession : ℕ := 0
  clickCommand : ℕ := 0
  syntheticItemId : ℕ := 0
  physicalQueuedNs : ℕ := 0
  clickIndex : ℕ := 0
  syntheticX : ℤ := 0
  syntheticY : ℤ := 0
  syntheticWheel : ℤ := 0
  syntheticPan : ℤ := 0
  physicalX : ℤ := 0
  physicalY : ℤ := 0
  physicalWheel : ℤ := 0
  physicalPan : ℤ := 0
  persistentButtons : Mask := 0
  scheduledButtons : Mask := 0
  physicalButtons : Mask := 0
  mouseReportKind : ReportKind := .none
  clickButton : ℕ := 0
  clickBlocked : Bool := false
  mouseFinalButtons : Mask := 0
  mouseManaged : Bool := false
  mousePhysical : Bool := false
  mousePhysicalMatch : Bool := false
  mouseStandalone : Bool := false
  mouseCompetingStandalone : Bool := false
  syntheticApplyButtons : Bool := false
deriving DecidableEq, Repr

structure WriterEvent where
  session : ℕ := 0
  command : ℕ := 0
  generation : ℕ := 0
  writtenNs : ℕ := 0
  index : ℕ := 0
  kind : ReportKind := .none
  button : ℕ := 0
  blocked : Bool := false
  finalButtons : Mask := 0
  success : Bool := false
  dx : ℤ := 0
  dy : ℤ := 0
  finished : Bool := false
deriving DecidableEq, Repr

/-- What the mixer uses of `thread_info`; the queue and the threads are in `Port`. -/
structure ThreadInfo where
  epNum : ℕ := 0
  mousePollIntervalUs : ℕ := 0
  mouseSyntheticPending : Bool := false
deriving DecidableEq, Repr

structure Endpoint where
  info : ThreadInfo := {}
  interfaceNumber : ℕ := 0
  profile : MouseProfile := {}
  latest : List Byte := []
  submittedTemplate : List Byte := []
  synthetic : List SyntheticItem := []
  physicalButtons : Mask := 0
  submittedPhysicalButtons : Mask := 0
  persistentButtons : Mask := 0
  scheduledButtons : Mask := 0
  physicalDx : ℤ := 0
  physicalDy : ℤ := 0
  cumulativeX : ℤ := 0
  cumulativeY : ℤ := 0
  generation : ℕ := 0
  inst : ℕ := 0
  nextItem : ℕ := 1
  physicalBarrier : ℕ := 0
  lastMotionNs : ℕ := 0
  physicalReceived : ℕ := 0
  physicalSubmitted : ℕ := 0
  superseded : ℕ := 0
  writerFailures : ℕ := 0
  activity : ℕ := 0
  physicalSuccessesSinceStandalone : ℕ := 0
  inflight : Bool := false
  inflightId : ℕ := 0
deriving DecidableEq, Repr

/-- The arguments of `enqueue_report`. -/
structure EnqueueArgs where
  command : MouseCommand := {}
  persistent : Mask := 0
  scheduled : Mask := 0
  kind : ReportKind := .none
  latest : Bool := false
  session : ℕ := 0
  commandId : ℕ := 0
  clickIndex : ℕ := 0
  clickButton : ℕ := 0
  expectedActivity : Option ℕ := none
  expectedGeneration : ℕ := 0
deriving DecidableEq, Repr

/-- A report handed to the writer.  `merged` is the pair of masks `take_mouse_report` merged into
the final buttons (its locals `persistent` and `scheduled`), `none` when the report went out as it
came in. -/
structure Taken where
  io : Io
  merged : Option (Mask × Mask)
deriving DecidableEq, Repr

def saturatingAdd (value delta : ℤ) : ℤ := max (-2 ^ 63) (min (2 ^ 63 - 1) (value + delta))

namespace SyntheticItem

/-- The item with its motion dropped. -/
def still (item : SyntheticItem) : SyntheticItem :=
  { item with remaining := { item.remaining with x := 0, y := 0, wheel := 0, pan := 0 } }

/-- Past its 25 ms an item keeps its buttons only. -/
def expire (item : SyntheticItem) (now : ℕ) : SyntheticItem :=
  if item.deadlineNs ≠ 0 ∧ item.deadlineNs < now then item.still else item

/-- The item still has masks to write: `!buttons_committed && (…)`. -/
def needsButtons (item : SyntheticItem) (persistent scheduled : Mask) : Bool :=
  !item.buttonsCommitted &&
    (item.persistent != persistent || item.scheduled != scheduled ||
      item.kind == .releaseAll || item.kind.isTransaction)

/-- Fully written with its masks committed. -/
def finished (item : SyntheticItem) : Bool := item.remaining.noMotion && item.buttonsCommitted

end SyntheticItem

namespace Endpoint

/-- `update_pending` -/
def updatePending (e : Endpoint) : Endpoint :=
  { e with info := { e.info with mouseSyntheticPending := !e.synthetic.isEmpty } }

/-- `matching_profile`, over the descriptors of the endpoint's interface. -/
def matchingProfile (e : Endpoint) (profiles : List MouseProfile) (data : List Byte) :
    Option MouseProfile :=
  profiles.find? fun p => p.accepts data && (e.latest.isEmpty || p.id == e.profile.id)

/-- `motion_fits` -/
def motionFits (m : MouseProfile) (io : Io) (c : MouseCommand) : Bool :=
  m.x.fits io.physicalX c.x && m.y.fits io.physicalY c.y &&
    m.wheel.fits io.physicalWheel c.wheel && m.pan.fits io.physicalPan c.pan

/-- `apply_known_fields` -/
def applyKnownFields (m : MouseProfile) (data : List Byte) (x y wheel pan : ℤ) (buttons : Mask) :
    List Byte :=
  m.putButtons (m.pan.write (m.wheel.write (m.y.write (m.x.write data x) y) wheel) pan) buttons

/-- `invalidate_interface`, for one endpoint of the interface and its next generation. -/
def invalidate (e : Endpoint) (generation : ℕ) : Endpoint :=
  updatePending { e with
    latest := [], submittedTemplate := [], synthetic := [], persistentButtons := 0,
    scheduledButtons := 0, inflight := false, inflightId := 0, generation }

/-- `queue_physical_mouse_report` on a registered endpoint. -/
def queuePhysical (e : Endpoint) (profiles : List MouseProfile) (now : ℕ) (io : Io) :
    Endpoint × Io :=
  let io := { io with
    mouseManaged := true, mousePhysical := true, physicalQueuedNs := now,
    mouseGeneration := e.generation, mouseEndpointInstance := e.inst }
  let e := { e with physicalBarrier := e.physicalBarrier + 1 }
  match e.matchingProfile profiles io.data with
  | none => (e, io)
  | some m =>
    let io := { io with
      mousePhysicalMatch := true, physicalButtons := m.buttonMask io.data
      physicalX := m.x.get io.data, physicalY := m.y.get io.data
      physicalWheel := m.wheel.get io.data, physicalPan := m.pan.get io.data }
    let moved := io.physicalX ≠ 0 ∨ io.physicalY ≠ 0
    let active := moved ∨ io.physicalWheel ≠ 0 ∨ io.physicalPan ≠ 0 ∨
      e.physicalButtons ≠ io.physicalButtons
    ({ e with
        profile := if e.latest.isEmpty then m else e.profile
        latest := io.data
        activity := if active then e.activity + 1 else e.activity
        physicalButtons := io.physicalButtons
        physicalDx := io.physicalX
        physicalDy := io.physicalY
        cumulativeX := saturatingAdd e.cumulativeX io.physicalX
        cumulativeY := saturatingAdd e.cumulativeY io.physicalY
        lastMotionNs := if moved then now else e.lastMotionNs
        physicalReceived := e.physicalReceived + 1 }, io)

/-- `seed_mouse_report` on a registered endpoint; `none` when no layout matches. -/
def seed (e : Endpoint) (profiles : List MouseProfile) (data : List Byte) : Option Endpoint :=
  (e.matchingProfile profiles data).map fun m =>
    let base := m.putButtons (m.zeroRelative data) 0
    { e with
      profile := m, latest := base, submittedTemplate := base, physicalButtons := 0
      submittedPhysicalButtons := 0 }

/-- The loop of `remove_finished_front`. -/
def dropFinished : List SyntheticItem → List SyntheticItem
  | [] => []
  | item :: rest => if item.finished then dropFinished rest else item :: rest

/-- `remove_finished_front` -/
def removeFinishedFront (e : Endpoint) : Endpoint :=
  updatePending { e with synthetic := dropFinished e.synthetic }

/-- The loop of `expire_front`. -/
def dropExpired (persistent scheduled : Mask) (now : ℕ) :
    List SyntheticItem → List SyntheticItem
  | [] => []
  | item :: rest =>
    if (item.expire now).remaining.noMotion && !(item.expire now).needsButtons persistent scheduled
    then dropExpired persistent scheduled now rest
    else item.expire now :: rest

/-- `expire_front` -/
def expireFront (e : Endpoint) (now : ℕ) : Endpoint :=
  updatePending { e with
    synthetic := dropExpired e.persistentButtons e.scheduledButtons now e.synthetic }

/-- An item that a later latest movement with this persistent mask supersedes. -/
def supersedes (e : Endpoint) (persistent : Mask) (tail : SyntheticItem) : Bool :=
  !(e.inflight && tail.id == e.inflightId) && tail.latest && tail.kind == .movement &&
    tail.persistent == persistent && tail.physicalBarrier == e.physicalBarrier

/-- The queue once the superseded items are popped from its back. -/
def afterSupersession (e : Endpoint) (persistent : Mask) : List SyntheticItem :=
  e.synthetic.rdropWhile (e.supersedes persistent)

/-- The queue an accepted report is pushed to. -/
def queueFor (e : Endpoint) (a : EnqueueArgs) : List SyntheticItem :=
  if a.latest then e.afterSupersession a.persistent else e.synthetic

/-- The command of `enqueue_report` with its final buttons. -/
def EnqueueArgs.full (a : EnqueueArgs) : MouseCommand :=
  { a.command with buttons := a.persistent ||| a.scheduled }

/-- The item `enqueue_report` pushes. -/
def itemFor (e : Endpoint) (a : EnqueueArgs) (now : ℕ) : SyntheticItem :=
  { id := e.nextItem, generation := e.generation
    deadlineNs := if a.latest then now + 25000000 else 0
    physicalBarrier := e.physicalBarrier, session := a.session, commandId := a.commandId
    clickIndex := a.clickIndex, remaining := EnqueueArgs.full a, persistent := a.persistent
    scheduled := a.scheduled, clickButton := a.clickButton
    guardActivity := a.expectedActivity, kind := a.kind, latest := a.latest }

/-- `enqueue_report` on the selected endpoint. -/
def enqueue (e : Endpoint) (a : EnqueueArgs) (now : ℕ) : Endpoint × EnqueueResult :=
  if e.latest.isEmpty then (e, .notReady)
  else if (a.expectedGeneration ≠ 0 ∧ e.generation ≠ a.expectedGeneration) ∨
      (a.expectedActivity.any (· != e.activity)) then (e, .notReady)
  else if splitMouseCommand e.profile (EnqueueArgs.full a) = [] then (e, .unsupported)
  else
    let queue := e.queueFor a
    let e1 := { e with
      synthetic := queue, superseded := e.superseded + (e.synthetic.length - queue.length) }
    if maxSyntheticItems ≤ queue.length then (e1, .queueFull)
    else
      (updatePending { e1 with
        synthetic := queue ++ [e.itemFor a now], nextItem := e.nextItem + 1 }, .ok)

/-- `clear_synthetic_state` on the selected endpoint.  The committed masks stay: they describe the
last successful USB write. -/
def clear (e : Endpoint) : Endpoint :=
  updatePending { e with synthetic := [], inflight := false, inflightId := 0 }

/-- `describe_synthetic`, the endpoint's side. -/
def markInflight (e : Endpoint) (item : SyntheticItem) : Endpoint :=
  { e with inflight := true, inflightId := item.id }

/-- `describe_synthetic`, the report's side. -/
def describe (e : Endpoint) (item : SyntheticItem) (io : Io) (applied : MouseCommand)
    (standalone competing : Bool) : Io :=
  let visible := e.submittedPhysicalButtons ||| e.persistentButtons ||| e.scheduledButtons
  { io with
    mouseManaged := true, mouseGeneration := e.generation, syntheticItemId := item.id
    mouseEndpointInstance := e.inst, clickSession := item.session
    clickCommand := item.commandId, clickIndex := item.clickIndex
    clickButton := item.clickButton, mouseReportKind := item.kind
    persistentButtons := item.persistent, scheduledButtons := item.scheduled
    syntheticX := applied.x, syntheticY := applied.y, syntheticWheel := applied.wheel
    syntheticPan := applied.pan, syntheticApplyButtons := true, mouseStandalone := standalone
    mouseCompetingStandalone := competing
    clickBlocked :=
      if (item.kind = .clickPress ∨ item.kind = .transactionPress) ∧ item.clickButton ≠ 0 then
        visible &&& buttonBit item.clickButton != 0
      else io.clickBlocked }

/-- The front item, unless its activity guard holds it back. -/
def eligible (e : Endpoint) : Option SyntheticItem :=
  match e.synthetic with
  | [] => none
  | item :: _ =>
    if item.guardActivity.any (· != e.activity) then none else some item

/-- `mouse_physical_match && mouse_generation == endpoint.generation` -/
def compatible (e : Endpoint) (io : Io) : Bool :=
  io.mousePhysicalMatch && io.mouseGeneration == e.generation

/-- `fusion_motion` of an item: a transaction goes out in parts, the rest whole. -/
def fusionMotion (e : Endpoint) (item : SyntheticItem) : MouseCommand :=
  if item.kind.isTransaction then
    (splitMouseCommand e.profile item.remaining).headD item.remaining
  else item.remaining

def fuses (e : Endpoint) (item : SyntheticItem) (io : Io) : Bool :=
  e.compatible io && motionFits e.profile io (e.fusionMotion item)

def buttonsOnly (e : Endpoint) (item : SyntheticItem) (io : Io) : Bool :=
  e.compatible io && item.needsButtons e.persistentButtons e.scheduledButtons

/-- The physical report `io` goes out with masks `persistent` and `scheduled` and the synthetic
motion `applied`. -/
def overlay (e : Endpoint) (io : Io) (applied : MouseCommand) (persistent scheduled : Mask) : Io :=
  let final := io.physicalButtons ||| persistent ||| scheduled
  { io with
    mouseFinalButtons := final
    data := applyKnownFields e.profile io.data (io.physicalX + applied.x)
      (io.physicalY + applied.y) (io.physicalWheel + applied.wheel) (io.physicalPan + applied.pan)
      final }

/-- The physical path of `take_mouse_report` for the report `io`, popped from the queue. -/
def takePhysical (e : Endpoint) (io : Io) : Endpoint × Taken :=
  let io := { io with mouseManaged := true, mousePhysical := true }
  match e.eligible.filter fun item => e.fuses item io || e.buttonsOnly item io with
  | some item =>
    let applied := if e.fuses item io then e.fusionMotion item else {}
    let io := e.describe item io applied false false
    (e.markInflight item,
      ⟨e.overlay io applied item.persistent item.scheduled,
        some (item.persistent, item.scheduled)⟩)
  | none =>
    if e.compatible io then
      (e, ⟨e.overlay io {} e.persistentButtons e.scheduledButtons,
        some (e.persistentButtons, e.scheduledButtons)⟩)
    else (e, ⟨io, none⟩)

/-- The standalone path of `take_mouse_report`. -/
def takeStandalone (e : Endpoint) (item : SyntheticItem) (competing : Bool) :
    Option (Endpoint × Taken) :=
  let base := if e.submittedTemplate.isEmpty then e.latest else e.submittedTemplate
  if base.isEmpty then none
  else
    let command := { item.remaining with buttons := item.persistent ||| item.scheduled }
    match splitMouseCommand e.profile command with
    | [] => none
    | applied :: _ =>
      let final := e.submittedPhysicalButtons ||| item.persistent ||| item.scheduled
      let data := (e.profile.encode applied (e.profile.zeroRelative base)).1
      let io : Io := {
        ep := e.info.epNum, data := e.profile.putButtons data final, mouseFinalButtons := final }
      some (e.markInflight item,
        ⟨e.describe item io applied true competing, some (item.persistent, item.scheduled)⟩)

/-- A lone physical report yields to a standalone report (`standalone=competing=true`). -/
def yields (e : Endpoint) (item : SyntheticItem) (queue : List Io) (io : Io) : Bool :=
  queue.length == 1 && !e.fuses item io && !e.buttonsOnly item io &&
    !e.submittedTemplate.isEmpty && decide (3 ≤ e.physicalSuccessesSinceStandalone)

/-- `take_mouse_report` on a registered endpoint with its physical FIFO. -/
def take (e : Endpoint) (now : ℕ) (queue : List Io) : Endpoint × List Io × Option Taken :=
  if e.inflight then (e, queue, none)
  else
    let e := e.expireFront now
    match queue, e.eligible with
    | [], none => (e, queue, none)
    | [], some item =>
      match e.takeStandalone item false with
      | none => (e, queue, none)
      | some (e', taken) => (e', queue, some taken)
    | io :: rest, none => ((e.takePhysical io).1, rest, some (e.takePhysical io).2)
    | io :: rest, some item =>
      if e.yields item queue io then
        match e.takeStandalone item true with
        | none => (e, queue, none)
        | some (e', taken) => (e', queue, some taken)
      else ((e.takePhysical io).1, rest, some (e.takePhysical io).2)

/-- The in-flight bookkeeping still names the front item as the one `io` carries. -/
def commits (e : Endpoint) (io : Io) : Bool :=
  io.mouseGeneration == e.generation && io.syntheticItemId != 0 && e.inflight &&
    e.inflightId == io.syntheticItemId &&
    (e.synthetic.head?.any fun item => item.id == io.syntheticItemId)

/-- The front item after a successful write of `io`. -/
def writtenItem (item : SyntheticItem) (io : Io) : SyntheticItem :=
  { item with
    buttonsCommitted := item.buttonsCommitted || io.syntheticApplyButtons
    remaining := { item.remaining with
      x := item.remaining.x - io.syntheticX, y := item.remaining.y - io.syntheticY
      wheel := item.remaining.wheel - io.syntheticWheel
      pan := item.remaining.pan - io.syntheticPan } }

/-- The physical accounting of `notify_mouse_report_written`. -/
def notePhysical (e : Endpoint) (io : Io) (success : Bool) : Endpoint :=
  let current := io.mouseGeneration == e.generation
  let e := if !success && current then { e with writerFailures := e.writerFailures + 1 } else e
  let e :=
    if success && io.mousePhysical then
      let e := { e with
        physicalSuccessesSinceStandalone := min 3 (e.physicalSuccessesSinceStandalone + 1) }
      if io.mousePhysicalMatch then
        { e with
          physicalSubmitted := e.physicalSubmitted + 1
          submittedPhysicalButtons := io.physicalButtons
          submittedTemplate :=
            if current then
              applyKnownFields e.profile io.data io.physicalX io.physicalY io.physicalWheel
                io.physicalPan io.physicalButtons
            else e.submittedTemplate }
      else e
    else e
  if success && io.mouseCompetingStandalone then
    { e with physicalSuccessesSinceStandalone := 0 }
  else e

/-- The synthetic accounting of `notify_mouse_report_written`: the endpoint, and whether the item
is finished. -/
def noteSynthetic (e : Endpoint) (io : Io) (success : Bool) : Endpoint × Bool :=
  match e.synthetic with
  | [] => (e, false)
  | item :: rest =>
    if e.commits io then
      if success then
        let item := writtenItem item io
        let e := { e with synthetic := item :: rest, inflight := false, inflightId := 0 }
        let e :=
          if io.syntheticApplyButtons then
            { e with persistentButtons := io.persistentButtons,
                     scheduledButtons := io.scheduledButtons }
          else e
        (e.removeFinishedFront, item.finished)
      else (updatePending { e with inflight := false, inflightId := 0 }, false)
    else (e, false)

/-- The event `notify_mouse_report_written` emits for the current layout. -/
def eventFor (io : Io) (written : ℕ) (success finished : Bool) : Option WriterEvent :=
  if io.mouseReportKind.reported || !success then
    some { session := io.clickSession, command := io.clickCommand
           generation := io.mouseGeneration, writtenNs := written, index := io.clickIndex
           kind := io.mouseReportKind, button := io.clickButton, blocked := io.clickBlocked
           finalButtons := io.mouseFinalButtons, success, dx := io.syntheticX
           dy := io.syntheticY, finished }
  else none

/-- `notify_mouse_report_written` on a registered endpoint. -/
def notify (e : Endpoint) (io : Io) (written : ℕ) (success : Bool) :
    Endpoint × Option WriterEvent :=
  if !io.mouseManaged || io.mouseEndpointInstance != e.inst then (e, none)
  else
    let current := io.mouseGeneration == e.generation
    let r := (e.notePhysical io success).noteSynthetic io success
    (r.1, if current then eventFor io written success r.2 else none)

end Endpoint

end UsbProxy
