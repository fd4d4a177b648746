import UsbProxy.Lib.Struct
import UsbProxy.Protocol.Wire

/-!
# The Python client (`client.py`)

The packets the client builds and the replies it decodes, up to the socket.  Python's integers are
`ℤ`; a `round` of an integer is that integer.  A method returns the client it leaves behind with its
packet or its error.
-/

namespace UsbProxy

open Bits Struct

/-- What a method raises. -/
inductive PyError
  | value (message : String)
  | runtime (message : String)
  /-- `struct.error` -/
  | packing
deriving DecidableEq, Repr

/-- `struct.pack` -/
def packed (fields : List Field) (values : List Value) : Except PyError (List Byte) :=
  match pack fields values with
  | some p => .ok p
  | none => .error .packing

/-- `struct.unpack_from` on a buffer that is long enough. -/
def unpackFrom (fields : List Field) (p : List Byte) (offset : ℕ) : List Value :=
  unpack fields (p.drop offset)

/-- `fields[i]`, an integer. -/
def intAt (fields : List Value) (i : ℕ) : ℤ :=
  match fields[i]? with
  | some (.int n) => n
  | _ => 0

/-- `any(packet[i:j])` -/
def anyFrom (p : List Byte) (i n : ℕ) : Bool := !zeroBytes p i n

/-! ### The formats -/

/-- `'!4sBBBBQQIIII'` -/
def clickRequestFormat : List Field :=
  [.bytes 4, .unsigned 1, .unsigned 1, .unsigned 1, .unsigned 1, .unsigned 8, .unsigned 8,
    .unsigned 4, .unsigned 4, .unsigned 4, .unsigned 4]

/-- `'!4sBBBBQQIIQHHI'` -/
def clickAckFormat : List Field :=
  [.bytes 4, .unsigned 1, .unsigned 1, .unsigned 1, .unsigned 1, .unsigned 8, .unsigned 8,
    .unsigned 4, .unsigned 4, .unsigned 8, .unsigned 2, .unsigned 2, .unsigned 4]

/-- `'!4sB3xQQ'` -/
def queryFormat : List Field := [.bytes 4, .unsigned 1, .pad 3, .unsigned 8, .unsigned 8]

/-- `'!4sBBBBQQQQiiIIIII12x'` -/
def moveRequestFormat : List Field :=
  [.bytes 4, .unsigned 1, .unsigned 1, .unsigned 1, .unsigned 1, .unsigned 8, .unsigned 8,
    .unsigned 8, .unsigned 8, .signed 4, .signed 4, .unsigned 4, .unsigned 4, .unsigned 4,
    .unsigned 4, .unsigned 4, .pad 12]

/-- `'!QQQQ'` -/
def idsFormat : List Field := [.unsigned 8, .unsigned 8, .unsigned 8, .unsigned 8]

/-- `'!Iiiii'` -/
def limitsFormat : List Field := [.unsigned 4, .signed 4, .signed 4, .signed 4, .signed 4]

/-- `'!QI'` -/
def layoutFormat : List Field := [.unsigned 8, .unsigned 4]

/-- `'!iiiiiiQ'` -/
def ledgerFormat : List Field :=
  [.signed 4, .signed 4, .signed 4, .signed 4, .signed 4, .signed 4, .unsigned 8]

/-! ### Replies -/

/-- `CLICK_STATUS.get(code, f'unknown_{code}')` -/
def clickStatusName (code : ℤ) : String :=
  match code with
  | 1 => "accepted"
  | 2 => "duplicate"
  | 3 => "completed"
  | 4 => "busy"
  | 5 => "queue_full"
  | 6 => "unsupported_button"
  | 7 => "invalid"
  | 8 => "cancelled"
  | 9 => "button_active"
  | 10 => "not_ready"
  | 11 => "stale_command"
  | _ => "unknown_" ++ toString code

/-- The dictionary of a UPA1 reply. -/
structure ClickReply where
  version : ℤ
  status : String
  statusCode : ℤ
  button : ℤ
  session : ℤ
  command : ℤ
  acceptedClicks : ℤ
  completedClicks : ℤ
  serverEpoch : ℤ
  queueDepth : ℤ
deriving DecidableEq, Repr

/-- `_parse_ack` -/
def clickReply (packet : List Byte) : Option ClickReply :=
  if packet.length ≠ size clickAckFormat ∨ packet.take 4 ≠ ascii "UPA1" then none
  else
    let fields := unpack clickAckFormat packet
    if (intAt fields 1 ≠ 1 ∧ intAt fields 1 ≠ 2) ∨ intAt fields 4 ≠ 0 ∨ intAt fields 11 ≠ 0 ∨
        intAt fields 12 ≠ 0 then none
    else some {
      version := intAt fields 1, status := clickStatusName (intAt fields 2)
      statusCode := intAt fields 2, button := intAt fields 3
      session := intAt fields 5, command := intAt fields 6
      acceptedClicks := intAt fields 7, completedClicks := intAt fields 8
      serverEpoch := intAt fields 9, queueDepth := intAt fields 10 }

/-- `names` of `_parse_move_ack` -/
def moveStatusNames : List String :=
  ["unknown", "accepted", "active", "completed", "busy", "queue_full", "invalid", "not_ready",
    "stale", "button_active", "interrupted", "cancelled", "timeout", "writer_failed",
    "endpoint_changed", "range"]

/-- The dictionary of a UPR1 reply. -/
structure MoveReply where
  status : String
  statusCode : ℕ
  stage : ℕ
  uncertain : Bool
  pressed : Bool
  released : Bool
  session : ℤ
  command : ℤ
  epoch : ℤ
  generation : ℤ
  outward : ℤ × ℤ
  returned : ℤ × ℤ
  remaining : ℤ × ℤ
  writtenNs : ℤ
deriving DecidableEq, Repr

/-- `_parse_move_ack` -/
def moveReply (packet : List Byte) : Option MoveReply :=
  if packet.length ≠ 96 ∨ packet.take 4 ≠ ascii "UPR1" ∨ byteAt packet 4 ≠ 1 then none
  else if ¬ (1 ≤ byteAt packet 5 ∧ byteAt packet 5 ≤ 15) ∨ 9 < byteAt packet 6 ∨
      packet.getD 7 0 &&& ~~~7#8 ≠ 0 ∨ anyFrom packet 72 (packet.length - 72) = true then none
  else
    let ids := unpackFrom idsFormat packet 8
    let ledger := unpackFrom ledgerFormat packet 40
    some {
      status := moveStatusNames.getD (byteAt packet 5) "", statusCode := byteAt packet 5
      stage := byteAt packet 6
      uncertain := packet.getD 7 0 &&& 1#8 != 0, pressed := packet.getD 7 0 &&& 2#8 != 0
      released := packet.getD 7 0 &&& 4#8 != 0
      session := intAt ids 0, command := intAt ids 1, epoch := intAt ids 2
      generation := intAt ids 3, outward := (intAt ledger 0, intAt ledger 1)
      returned := (intAt ledger 2, intAt ledger 3), remaining := (intAt ledger 4, intAt ledger 5)
      writtenNs := intAt ledger 6 }

/-- The dictionary of a UPI1 reply. -/
structure CapabilityReply where
  ready : Bool
  buttons : ℕ
  epoch : ℤ
  generation : ℤ
  pollUs : ℤ
  xmin : ℤ
  xmax : ℤ
  ymin : ℤ
  ymax : ℤ
  layout : ℤ
  maxSegments : ℤ
deriving DecidableEq, Repr

/-- What `capabilities` returns for a packet; `none` for the packets it goes on waiting after. -/
def capabilityReply (session token : ℤ) (packet : List Byte) : Option CapabilityReply :=
  if packet.length ≠ 80 ∨ packet.take 4 ≠ ascii "UPI1" ∨ byteAt packet 4 ≠ 1 then none
  else
    let ids := unpackFrom idsFormat packet 8
    if intAt ids 0 ≠ session ∨ intAt ids 1 ≠ token then none
    else
      let limits := unpackFrom limitsFormat packet 40
      let layout := unpackFrom layoutFormat packet 64
      if 1 < byteAt packet 5 ∨ byteAt packet 7 ≠ 0 ∨ anyFrom packet 60 4 = true ∨
          anyFrom packet 76 (packet.length - 76) = true then none
      else if intAt ids 2 = 0 ∨ (byteAt packet 5 ≠ 0 ∧
          (intAt ids 3 = 0 ∨ intAt layout 0 = 0 ∨ intAt limits 0 = 0 ∨
            ¬ (intAt limits 1 < 0 ∧ 0 < intAt limits 2) ∨
            ¬ (intAt limits 3 < 0 ∧ 0 < intAt limits 4) ∨ intAt layout 1 ≠ 32)) then none
      else some {
        ready := byteAt packet 5 != 0, buttons := byteAt packet 6, epoch := intAt ids 2
        generation := intAt ids 3, pollUs := intAt limits 0, xmin := intAt limits 1
        xmax := intAt limits 2, ymin := intAt limits 3, ymax := intAt limits 4
        layout := intAt layout 0, maxSegments := intAt layout 1 }

/-! ### Requests -/

/-- `secrets.randbits(64) or 1` -/
def randomId (bits : BitVec 64) : ℕ := if bits = 0 then 1 else bits.toNat

theorem randomId_range (bits : BitVec 64) : 0 < randomId bits ∧ randomId bits < 2 ^ 64 := by
  unfold randomId
  by_cases h : bits = 0
  · rw [if_pos h]
    norm_num
  · rw [if_neg h]
    refine ⟨Nat.pos_of_ne_zero fun hzero => h (BitVec.eq_of_toNat_eq hzero), bits.isLt⟩

/-- The client: its session, which is never `0`, and the last command it used. -/
structure MouseProxy where
  session : ℕ
  command : ℕ
  session_range : 0 < session ∧ session < 2 ^ 64

namespace MouseProxy

/-- `__init__` -/
def connect (bits : BitVec 64) : MouseProxy := ⟨randomId bits, 0, randomId_range bits⟩

/-- `_next_command` -/
def nextCommand (self : MouseProxy) : MouseProxy := { self with command := self.command + 1 }

/-- `schedule_clicks` -/
def scheduleClicks (self : MouseProxy) (button count pressMs intervalMs protocolVersion : ℤ) :
    MouseProxy × Except PyError (List Byte) :=
  if protocolVersion ≠ 1 ∧ protocolVersion ≠ 2 then
    (self, .error (.value "protocol_version must be 1 or 2"))
  else
    let self := self.nextCommand
    (self, packed clickRequestFormat
      [.bytes (ascii "UPC1"), .int protocolVersion, .int 1, .int button, .int 0,
        .int self.session, .int self.command, .int count, .int (pressMs * 1000),
        .int (intervalMs * 1000), .int 0])

/-- `release_all` -/
def releaseAll (self : MouseProxy) (protocolVersion : ℤ) :
    MouseProxy × Except PyError (List Byte) :=
  if protocolVersion ≠ 1 ∧ protocolVersion ≠ 2 then
    (self, .error (.value "protocol_version must be 1 or 2"))
  else
    let self := self.nextCommand
    (self, packed clickRequestFormat
      [.bytes (ascii "UPC1"), .int protocolVersion, .int 2, .int 0, .int 0, .int self.session,
        .int self.command, .int 0, .int 0, .int 0, .int 0])

/-- The query of `capabilities`. -/
def capabilityQuery (self : MouseProxy) (token : ℕ) : Except PyError (List Byte) :=
  packed queryFormat [.bytes (ascii "UPQ1"), .int 1, .int self.session, .int token]

/-- The first packet of `move_action_return`, once it knows the capabilities. -/
def moveActionReturn (self : MouseProxy) (caps : CapabilityReply)
    (dx dy button settleMs pressMs returnMs : ℤ) (onMidpoint : Bool) :
    MouseProxy × Except PyError (List Byte) :=
  if !caps.ready then (self, .error (.runtime "Pi mouse endpoint is not ready"))
  else if ¬ (-32767 ≤ dx ∧ dx ≤ 32767) ∨ ¬ (-32767 ≤ dy ∧ dy ≤ 32767) ∨
      ¬ (0 ≤ button ∧ button ≤ 8) then
    (self, .error (.value "Invalid movement or button"))
  else
    let timing := [settleMs * 1000, max (pressMs * 1000) caps.pollUs, returnMs * 1000]
    if timing.any fun n => decide (n < 0) || decide (1000000 < n) then
      (self, .error (.value "Timing must be between zero and 1000 milliseconds"))
    else
      let self := self.nextCommand
      (self, packed moveRequestFormat
        ([.bytes (ascii "UPM1"), .int 1, .int 1, .int onMidpoint.toInt, .int button,
          .int self.session, .int self.command, .int caps.epoch, .int caps.generation, .int dx,
          .int dy] ++ timing.map .int ++ [.int 5000000, .int 1500000]))

/-- `base[5]=2 if proceed else 3` -/
def midpoint (base : List Byte) (proceed : Bool) : List Byte := base.set 5 (if proceed then 2 else 3)

end MouseProxy

end UsbProxy
