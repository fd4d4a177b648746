import UsbProxy.Hid.Descriptor
import UsbProxy.Lib.Blocks
import UsbProxy.Replay.Capture

/-!
# Checking a capture (`ReplayProfile::load`)

Once the lines are read, the loader takes the configuration descriptor apart and checks that the
recording is a HID-only configuration it can replay.  `Describes` says in terms of the descriptor's
blocks what it accepts, and what it makes of them.
-/

namespace UsbProxy

open Bits

structure ReplayEndpoint where
  interfaceNumber : ℕ := 0
  descriptor : List Byte := []
deriving DecidableEq, Repr

structure ReplayInterface where
  number : ℕ := 0
  subclass : ℕ := 0
  protocol : ℕ := 0
  hid : List Byte := []
  report : List Byte := []
deriving DecidableEq, Repr

structure ReplayProfile where
  descriptors : DescriptorKey → Option (List Byte)
  samples : ℕ → Option (List Byte)
  interfaces : List ReplayInterface
  endpoints : List ReplayEndpoint
  device : List Byte
  config : List Byte
  speed : ℤ

/-- Bytes `i` and `i + 1`, low byte first. -/
def word (b : List Byte) (i : ℕ) : ℕ := byteAt b i + byteAt b (i + 1) * 2 ^ 8

/-- The keys of an interface's report descriptor and of its HID descriptor. -/
def reportKey (number : ℕ) : DescriptorKey := (0x81#8, 0x2200#16, BitVec.ofNat 16 number)
def hidKey (number : ℕ) : DescriptorKey := (0x81#8, 0x2100#16, BitVec.ofNat 16 number)

def ReplayEndpoint.address (e : ReplayEndpoint) : ℕ := byteAt e.descriptor 2

/-- `e.descriptor[2]&0x80` -/
def ReplayEndpoint.isIn (e : ReplayEndpoint) : Bool := decide (128 ≤ e.address)

def ReplayEndpoint.maxPacket (e : ReplayEndpoint) : ℕ := word e.descriptor 4

namespace ReplayProfile

def isInterface (b : List Byte) : Bool := byteAt b 1 == 4
def isHid (b : List Byte) : Bool := byteAt b 1 == 0x21
def isEndpoint (b : List Byte) : Bool := byteAt b 1 == 5

/-- The variables of the loop over the configuration's blocks; `iface` is the last of
`interfaces`. -/
structure Building where
  interfaces : List ReplayInterface := []
  endpoints : List ReplayEndpoint := []
  expected : ℕ → Option ℕ := fun _ => none
  actual : ℕ → ℕ := fun _ => 0
  addresses : ℕ → Bool := fun _ => false

/-- One block of the configuration. -/
def block (s : Building) (b : List Byte) : Except String Building :=
  if isInterface b then
    if b.length ≠ 9 ∨ byteAt b 3 ≠ 0 ∨ byteAt b 5 ≠ 3 ∨ (s.expected (byteAt b 2)).isSome then
      .error "Replay supports HID-only configurations with alternate setting zero"
    else
      .ok { s with
        interfaces := s.interfaces ++
          [{ number := byteAt b 2, subclass := byteAt b 6, protocol := byteAt b 7 }]
        expected := Function.update s.expected (byteAt b 2) (some (byteAt b 4)) }
  else if isHid b then
    match s.interfaces.getLast? with
    | none => .error "Invalid HID descriptor"
    | some iface =>
      if b.length < 9 then .error "Invalid HID descriptor"
      else .ok { s with interfaces := s.interfaces.dropLast ++ [{ iface with hid := b }] }
  else if isEndpoint b then
    match s.interfaces.getLast? with
    | none => .error "Replay requires unique interrupt endpoints"
    | some iface =>
      if b.length ≠ 7 ∨ byteAt b 3 % 4 ≠ 3 ∨ byteAt b 2 % 16 = 0 ∨
          s.addresses (byteAt b 2) = true then
        .error "Replay requires unique interrupt endpoints"
      else if word b 4 < 1 ∨ 1024 < word b 4 ∨ byteAt b 6 = 0 then
        .error "Invalid interrupt endpoint limits"
      else
        .ok { s with
          addresses := Function.update s.addresses (byteAt b 2) true
          actual := Function.update s.actual iface.number (s.actual iface.number + 1)
          endpoints := s.endpoints ++ [⟨iface.number, b⟩] }
  else .ok s

/-- The loop over the blocks behind the configuration descriptor's nine bytes. -/
def blocks (config : List Byte) : Except String Building :=
  Blocks.walk BitVec.toNat 2 "Invalid configuration block" block config.length (config.drop 9) {}

/-- The report length a HID descriptor announces: the last report entry counts. -/
def reportLength : List Byte → ℕ → ℕ
  | type :: low :: high :: rest, length =>
    reportLength rest (if type.toNat = 0x22 then low.toNat + high.toNat * 2 ^ 8 else length)
  | _, length => length

/-- The interrupt IN endpoints of an interface. -/
def inputs (endpoints : List ReplayEndpoint) (number : ℕ) : List ReplayEndpoint :=
  endpoints.filter fun e => e.interfaceNumber == number && e.isIn

/-- The variables of the loop over the interfaces. -/
structure Finishing where
  descriptors : DescriptorKey → Option (List Byte)
  mouse : Bool := false
  interfaces : List ReplayInterface := []

/-- One interface. -/
def finish (built : Building) (s : Finishing) (i : ReplayInterface) : Except String Finishing :=
  match s.descriptors (reportKey i.number) with
  | none => .error "Incomplete interface/HID report descriptor recording"
  | some report =>
    if i.hid.length < 9 ∨ report = [] ∨
        (built.expected i.number).getD 0 ≠ built.actual i.number then
      .error "Incomplete interface/HID report descriptor recording"
    else if report.length ≠ reportLength (i.hid.drop 6) 0 then
      .error "Truncated HID report descriptor"
    else
      let profiles := parseMouseDescriptor report
      let ins := inputs built.endpoints i.number
      if profiles ≠ [] ∧ ins.length ≠ 1 then
        .error "Mouse replay requires exactly one interrupt IN endpoint per mouse interface"
      else if ∃ e ∈ ins, ∃ layout ∈ profiles, e.maxPacket < layout.size then
        .error "Mouse report exceeds its endpoint packet size"
      else
        .ok {
          descriptors := Function.update s.descriptors (hidKey i.number) (some i.hid)
          mouse := s.mouse || !profiles.isEmpty
          interfaces := s.interfaces ++ [{ i with report }] }

/-- A complete device descriptor with one configuration. -/
def DeviceComplete (d : List Byte) : Prop :=
  d.length = 18 ∧ byteAt d 0 = 18 ∧ byteAt d 1 = 1 ∧ byteAt d 17 = 1

instance (d : List Byte) : Decidable (DeviceComplete d) := inferInstanceAs (Decidable (_ ∧ _))

def ConfigComplete (c : List Byte) : Prop :=
  9 ≤ c.length ∧ byteAt c 0 = 9 ∧ byteAt c 1 = 2 ∧ byteAt c 5 ≠ 0 ∧ word c 2 = c.length

instance (c : List Byte) : Decidable (ConfigComplete c) := inferInstanceAs (Decidable (_ ∧ _))

def deviceKey : DescriptorKey := (0x80#8, 0x100#16, 0#16)
def configKey : DescriptorKey := (0x80#8, 0x200#16, 0#16)

/-- What `load` does once the lines are read. -/
def complete (q : Loading) : Except String ReplayProfile :=
  if q.format = false then .error "Missing capture format record"
  else
    match (q.descriptors deviceKey).filter (DeviceComplete ·) with
    | none => .error "Replay requires a complete device descriptor with one configuration"
    | some device =>
      match (q.descriptors configKey).filter (ConfigComplete ·) with
      | none => .error "Missing complete configuration descriptor"
      | some config =>
        match blocks config with
        | .error e => .error e
        | .ok built =>
          if built.interfaces.length ≠ byteAt config 4 then .error "Interface count mismatch"
          else
            match built.interfaces.foldlM (finish built) { descriptors := q.descriptors } with
            | .error e => .error e
            | .ok s =>
              if s.mouse = false then .error "No supported relative HID mouse in capture"
              else if q.speed < 1 ∨ 3 < q.speed then
                .error "Capture speed must be low, full or high USB speed"
              else
                .ok {
                  descriptors := s.descriptors, samples := q.samples, interfaces := s.interfaces
                  endpoints := built.endpoints, device, config, speed := q.speed }

/-- `ReplayProfile::load` on the lines of a file; `none` when it throws. -/
def load (json : Json) (lines : List (List Byte)) : Option ReplayProfile :=
  (loadLines json {} lines).bind fun q => (complete q).toOption

/-- `lookup` -/
def lookup (p : ReplayProfile) (type : Byte) (value index : BitVec 16) : Option (List Byte) :=
  p.descriptors (type, value, index)

end ReplayProfile

end UsbProxy
