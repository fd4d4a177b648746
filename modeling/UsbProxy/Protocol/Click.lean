import UsbProxy.Protocol.Wire

/-!
# UPC1 and UPA1 (`click_protocol.h`)
-/

namespace UsbProxy.ClickProtocol

open Bits

inductive Operation
  | schedule | releaseAll
deriving DecidableEq, Repr

inductive Status
  | accepted | duplicate | completed | busy | queueFull | unsupportedButton | invalid | cancelled
  | buttonActive | notReady | staleCommand
deriving DecidableEq, Repr

def Status.code : Status → ℕ
  | .accepted => 1
  | .duplicate => 2
  | .completed => 3
  | .busy => 4
  | .queueFull => 5
  | .unsupportedButton => 6
  | .invalid => 7
  | .cancelled => 8
  | .buttonActive => 9
  | .notReady => 10
  | .staleCommand => 11

def version1 : ℕ := 1
def version2 : ℕ := 2
def requestSize : ℕ := 40

structure Request where
  operation : Operation := .schedule
  button : ℕ := 0
  session : ℕ := 0
  command : ℕ := 0
  count : ℕ := 0
  pressUs : ℕ := 0
  intervalUs : ℕ := 0
  version : ℕ := version1
deriving DecidableEq, Repr

structure Ack where
  status : Status := .invalid
  button : ℕ := 0
  session : ℕ := 0
  command : ℕ := 0
  serverEpoch : ℕ := 0
  accepted : ℕ := 0
  completed : ℕ := 0
  queueDepth : ℕ := 0
  version : ℕ := version1
deriving DecidableEq, Repr

def operationOf (n : ℕ) : Option Operation :=
  if n = 1 then some .schedule else if n = 2 then some .releaseAll else none

/-- `parse` -/
def parse (p : List Byte) : Option Request :=
  if p.length ≠ requestSize ∨ hasTag p "UPC1" = false ∨
      (byteAt p 4 ≠ version1 ∧ byteAt p 4 ≠ version2) ∨ byteAt p 7 ≠ 0 ∨ get32 p 36 ≠ 0 then none
  else
    match operationOf (byteAt p 5) with
    | none => none
    | some operation =>
      let r : Request := {
        operation, button := byteAt p 6, session := get64 p 8, command := get64 p 16
        version := byteAt p 4, count := get32 p 24, pressUs := get32 p 28
        intervalUs := get32 p 32 }
      if r.session = 0 ∨ r.command = 0 then none
      else if r.operation = .releaseAll ∧
          (r.button ≠ 0 ∨ r.count ≠ 0 ∨ r.pressUs ≠ 0 ∨ r.intervalUs ≠ 0) then none
      else some r

/-- `request` -/
def request (op : Operation) (session command button count pressUs intervalUs version : ℕ) :
    List Byte :=
  ascii "UPC1" ++ put8 version ++ put8 (match op with | .schedule => 1 | .releaseAll => 2) ++
    put8 button ++ put8 0 ++ put64 session ++ put64 command ++ put32 count ++ put32 pressUs ++
    put32 intervalUs ++ put32 0

def ackSize : ℕ := 48

def statusOf (n : ℕ) : Option Status :=
  [.accepted, .duplicate, .completed, .busy, .queueFull, .unsupportedButton, .invalid, .cancelled,
    .buttonActive, .notReady, .staleCommand].find? fun s => s.code == n

/-- `packet(const Ack&)` -/
def Ack.packet (a : Ack) : List Byte :=
  ascii "UPA1" ++ put8 a.version ++ put8 a.status.code ++ put8 a.button ++ put8 0 ++
    put64 a.session ++ put64 a.command ++ put32 a.accepted ++ put32 a.completed ++
    put64 a.serverEpoch ++ put16 a.queueDepth ++ List.replicate 6 0

/-- `parse_ack` -/
def parseAck (p : List Byte) : Option Ack :=
  if p.length ≠ ackSize ∨ hasTag p "UPA1" = false ∨
      (byteAt p 4 ≠ version1 ∧ byteAt p 4 ≠ version2) ∨ byteAt p 7 ≠ 0 ∨ get16 p 42 ≠ 0 ∨
      get32 p 44 ≠ 0 then none
  else
    (statusOf (byteAt p 5)).map fun status => {
      status, button := byteAt p 6, session := get64 p 8, command := get64 p 16
      version := byteAt p 4, accepted := get32 p 24, completed := get32 p 28
      serverEpoch := get64 p 32, queueDepth := get16 p 40 }

/-- `same_request` (`udp_server.cpp`) -/
def sameRequest (a b : Request) : Bool :=
  a.version == b.version && a.operation == b.operation && a.button == b.button &&
    a.count == b.count && a.pressUs == b.pressUs && a.intervalUs == b.intervalUs

theorem parse_ids {p : List Byte} {r : Request} (h : parse p = some r) :
    r.session ≠ 0 ∧ r.command ≠ 0 := by
  unfold parse at h
  split at h
  · cases h
  · split at h
    · cases h
    · simp only at h
      split_ifs at h with h1 h2
      cases h
      simpa using h1

end UsbProxy.ClickProtocol
