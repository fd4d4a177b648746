import UsbProxy.Protocol.Wire

/-!
# UPM1, UPR1, UPQ1 and UPI1 (`move_protocol.h`)
-/

namespace UsbProxy.MoveProtocol

open Bits

inductive Operation
  | execute | continue_ | cancel | query
deriving DecidableEq, Repr

def Operation.code : Operation → ℕ
  | .execute => 1
  | .continue_ => 2
  | .cancel => 3
  | .query => 4

def operationOf (n : ℕ) : Option Operation :=
  if n = 1 then some .execute else if n = 2 then some .continue_
  else if n = 3 then some .cancel else if n = 4 then some .query else none

inductive Status
  | accepted | active | completed | busy | queueFull | invalid | notReady | stale | buttonActive
  | interrupted | cancelled | timeout | writerFailed | endpointChanged | range
deriving DecidableEq, Repr

def Status.code : Status → ℕ
  | .accepted => 1
  | .active => 2
  | .completed => 3
  | .busy => 4
  | .queueFull => 5
  | .invalid => 6
  | .notReady => 7
  | .stale => 8
  | .buttonActive => 9
  | .interrupted => 10
  | .cancelled => 11
  | .timeout => 12
  | .writerFailed => 13
  | .endpointChanged => 14
  | .range => 15

/-- `status_name` -/
def statusName (s : Status) : String :=
  ["unknown", "accepted", "active", "completed", "busy", "queue_full", "invalid", "not_ready",
    "stale", "button_active", "interrupted", "cancelled", "timeout", "writer_failed",
    "endpoint_changed", "range"].getD s.code "unknown"

/-- `terminal` -/
def Status.terminal (s : Status) : Bool := s != .accepted && s != .active

inductive Stage
  | idle | out | settle | waiting | press | hold | release | delay | return_ | done
deriving DecidableEq, Repr

def Stage.code : Stage → ℕ
  | .idle => 0
  | .out => 1
  | .settle => 2
  | .waiting => 3
  | .press => 4
  | .hold => 5
  | .release => 6
  | .delay => 7
  | .return_ => 8
  | .done => 9

def requestSize : ℕ := 80
def querySize : ℕ := 24

structure Request where
  operation : Operation := .execute
  flags : ℕ := 0
  button : ℕ := 0
  session : ℕ := 0
  command : ℕ := 0
  epoch : ℕ := 0
  generation : ℕ := 0
  dx : ℤ := 0
  dy : ℤ := 0
  settleUs : ℕ := 1000
  pressUs : ℕ := 10000
  returnUs : ℕ := 0
  budgetUs : ℕ := 2000000
  waitUs : ℕ := 1000000
deriving DecidableEq, Repr

/-- `packet(const Request&)` -/
def Request.packet (r : Request) : List Byte :=
  ascii "UPM1" ++ put8 1 ++ put8 r.operation.code ++ put8 r.flags ++ put8 r.button ++
    put64 r.session ++ put64 r.command ++ put64 r.epoch ++ put64 r.generation ++ putI32 r.dx ++
    putI32 r.dy ++ put32 r.settleUs ++ put32 r.pressUs ++ put32 r.returnUs ++ put32 r.budgetUs ++
    put32 r.waitUs ++ List.replicate 12 0

/-- `parse` -/
def parse (p : List Byte) : Option Request :=
  if p.length ≠ requestSize ∨ hasTag p "UPM1" = false ∨ byteAt p 4 ≠ 1 ∨ 1 < byteAt p 6 ∨
      8 < byteAt p 7 ∨ zeroBytes p 68 12 = false then none
  else
    match operationOf (byteAt p 5) with
    | none => none
    | some operation =>
      let r : Request := {
        operation, flags := byteAt p 6, button := byteAt p 7, session := get64 p 8
        command := get64 p 16, epoch := get64 p 24, generation := get64 p 32, dx := getI32 p 40
        dy := getI32 p 44, settleUs := get32 p 48, pressUs := get32 p 52, returnUs := get32 p 56
        budgetUs := get32 p 60, waitUs := get32 p 64 }
      if r.session ≠ 0 ∧ r.command ≠ 0 ∧ r.epoch ≠ 0 ∧ r.generation ≠ 0 ∧ -32767 ≤ r.dx ∧
          r.dx ≤ 32767 ∧ -32767 ≤ r.dy ∧ r.dy ≤ 32767 ∧ r.settleUs ≤ 1000000 ∧
          r.pressUs ≤ 1000000 ∧ r.returnUs ≤ 1000000 ∧ 1000 ≤ r.budgetUs ∧
          r.budgetUs ≤ 5000000 ∧ r.waitUs ≤ 2000000 ∧ (r.flags = 1 → 0 < r.waitUs) then some r
      else none

/-- `same` -/
def same (a b : Request) : Bool :=
  { a with operation := .execute }.packet == { b with operation := .execute }.packet

structure Ack where
  status : Status := .invalid
  stage : Stage := .idle
  flags : ℕ := 0
  session : ℕ := 0
  command : ℕ := 0
  epoch : ℕ := 0
  generation : ℕ := 0
  writtenNs : ℕ := 0
  outX : ℤ := 0
  outY : ℤ := 0
  returnX : ℤ := 0
  returnY : ℤ := 0
  residualX : ℤ := 0
  residualY : ℤ := 0
deriving DecidableEq, Repr

/-- `packet(const Ack&)` -/
def Ack.packet (a : Ack) : List Byte :=
  ascii "UPR1" ++ put8 1 ++ put8 a.status.code ++ put8 a.stage.code ++ put8 a.flags ++
    put64 a.session ++ put64 a.command ++ put64 a.epoch ++ put64 a.generation ++ putI32 a.outX ++
    putI32 a.outY ++ putI32 a.returnX ++ putI32 a.returnY ++ putI32 a.residualX ++
    putI32 a.residualY ++ put64 a.writtenNs ++ List.replicate 24 0

def ackSize : ℕ := 96

def statusOf (n : ℕ) : Option Status :=
  [.accepted, .active, .completed, .busy, .queueFull, .invalid, .notReady, .stale, .buttonActive,
    .interrupted, .cancelled, .timeout, .writerFailed, .endpointChanged, .range].find?
    fun s => s.code == n

def stageOf (n : ℕ) : Option Stage :=
  [.idle, .out, .settle, .waiting, .press, .hold, .release, .delay, .return_, .done].find?
    fun s => s.code == n

/-- `parse_ack` -/
def parseAck (p : List Byte) : Option Ack :=
  if p.length ≠ ackSize ∨ hasTag p "UPR1" = false ∨ byteAt p 4 ≠ 1 ∨ 7 < byteAt p 7 ∨
      zeroBytes p 72 24 = false then none
  else
    match statusOf (byteAt p 5), stageOf (byteAt p 6) with
    | some status, some stage =>
      let a : Ack := {
        status, stage, flags := byteAt p 7, session := get64 p 8, command := get64 p 16
        epoch := get64 p 24, generation := get64 p 32, outX := getI32 p 40, outY := getI32 p 44
        returnX := getI32 p 48, returnY := getI32 p 52, residualX := getI32 p 56
        residualY := getI32 p 60, writtenNs := get64 p 64 }
      if a.session ≠ 0 ∧ a.command ≠ 0 ∧ a.epoch ≠ 0 then some a else none
    | _, _ => none

structure Capabilities where
  ready : Bool := false
  buttons : ℕ := 0
  session : ℕ := 0
  token : ℕ := 0
  epoch : ℕ := 0
  generation : ℕ := 0
  layout : ℕ := 0
  pollUs : ℕ := 0
  maxSegments : ℕ := 32
  xmin : ℤ := 0
  xmax : ℤ := 0
  ymin : ℤ := 0
  ymax : ℤ := 0
deriving DecidableEq, Repr

def capabilitySize : ℕ := 80

/-- `packet(const Capabilities&)` -/
def Capabilities.packet (c : Capabilities) : List Byte :=
  ascii "UPI1" ++ put8 1 ++ put8 c.ready.toNat ++ put8 c.buttons ++ put8 0 ++ put64 c.session ++
    put64 c.token ++ put64 c.epoch ++ put64 c.generation ++ put32 c.pollUs ++ putI32 c.xmin ++
    putI32 c.xmax ++ putI32 c.ymin ++ putI32 c.ymax ++ List.replicate 4 0 ++ put64 c.layout ++
    put32 c.maxSegments ++ List.replicate 4 0

/-- `parse_capabilities` -/
def parseCapabilities (p : List Byte) : Option Capabilities :=
  if p.length ≠ capabilitySize ∨ hasTag p "UPI1" = false ∨ byteAt p 4 ≠ 1 ∨ 1 < byteAt p 5 ∨
      byteAt p 7 ≠ 0 ∨ zeroBytes p 60 4 = false ∨ zeroBytes p 76 4 = false then none
  else
    let c : Capabilities := {
      ready := byteAt p 5 != 0, buttons := byteAt p 6, session := get64 p 8, token := get64 p 16
      epoch := get64 p 24, generation := get64 p 32, pollUs := get32 p 40, xmin := getI32 p 44
      xmax := getI32 p 48, ymin := getI32 p 52, ymax := getI32 p 56, layout := get64 p 64
      maxSegments := get32 p 72 }
    if c.session ≠ 0 ∧ c.token ≠ 0 ∧ c.epoch ≠ 0 ∧
        (c.ready = true → c.generation ≠ 0 ∧ c.layout ≠ 0 ∧ c.pollUs ≠ 0 ∧ c.xmin < 0 ∧
          0 < c.xmax ∧ c.ymin < 0 ∧ 0 < c.ymax ∧ -32768 ≤ c.xmin ∧ c.xmax ≤ 32767 ∧
          -32768 ≤ c.ymin ∧ c.ymax ≤ 32767 ∧ c.maxSegments = 32) then some c
    else none

/-- `query` -/
def query (session token : ℕ) : List Byte :=
  ascii "UPQ1" ++ put8 1 ++ List.replicate 3 0 ++ put64 session ++ put64 token

/-- `parse_query`: the session and the token. -/
def parseQuery (p : List Byte) : Option (ℕ × ℕ) :=
  if p.length ≠ querySize ∨ hasTag p "UPQ1" = false ∨ byteAt p 4 ≠ 1 ∨
      zeroBytes p 5 3 = false then none
  else if get64 p 8 ≠ 0 ∧ get64 p 16 ≠ 0 then some (get64 p 8, get64 p 16)
  else none

/-- A parsed request satisfies the parser's value checks. -/
theorem parse_some {p : List Byte} {r : Request} (h : parse p = some r) :
    r.session ≠ 0 ∧ r.command ≠ 0 ∧ r.generation ≠ 0 ∧ r.button ≤ 8 := by
  unfold parse at h
  split at h
  · cases h
  · rename_i hpre
    push Not at hpre
    split at h
    · cases h
    · simp only at h
      split_ifs at h with h1
      cases h
      exact ⟨h1.1, h1.2.1, h1.2.2.2.1, by simpa using hpre.2.2.2.2.1⟩

end UsbProxy.MoveProtocol
