import UsbProxy.Lib.Bits

/-!
# HID report layouts (`mouse_protocol.h`)

A `HidField` is a run of bits with a logical range, a `MouseProfile` the fields of one report
layout.  `get` and `put` are the bit loops of the source over `Bits.readBits` and
`Bits.writeBits`; a buffer is the list of the report's bytes.
-/

namespace UsbProxy

open Bits

/-- A button mask, bit `usage - 1`. -/
abbrev Mask := BitVec 8

/-- The mask of one button usage: `uint8_t(1u << (button - 1))`. -/
def buttonBit (button : ℕ) : Mask := 1#8 <<< (button - 1)

structure MouseCommand where
  x : ℤ := 0
  y : ℤ := 0
  wheel : ℤ := 0
  pan : ℤ := 0
  buttons : Mask := 0
deriving DecidableEq, Repr

/-- `no_motion` -/
def MouseCommand.noMotion (c : MouseCommand) : Bool :=
  c.x == 0 && c.y == 0 && c.wheel == 0 && c.pan == 0

structure HidField where
  offset : ℕ := 0
  bits : ℕ := 0
  minimum : ℤ := 0
  maximum : ℤ := 0
deriving DecidableEq, Repr

namespace HidField

def get (f : HidField) (p : List Byte) : ℤ :=
  if f.bits = 0 then 0
  else
    let v := readBits p f.offset f.bits
    if f.minimum < 0 ∧ v.testBit (f.bits - 1) then (v : ℤ) - 2 ^ f.bits else v

/-- The bytes after `put`, and its result: a value out of the logical range writes nothing. -/
def put (f : HidField) (p : List Byte) (value : ℤ) : List Byte × Bool :=
  if f.bits = 0 then (p, value == 0)
  else if value < f.minimum ∨ f.maximum < value then (p, false)
  else (writeBits p f.offset (fun i => (BitVec.ofInt 32 value).getLsbD i) f.bits, true)

/-- The bytes after `put`, for the callers that ignore its result. -/
def write (f : HidField) (p : List Byte) (value : ℤ) : List Byte := (f.put p value).1

@[simp] theorem write_length (f : HidField) (p : List Byte) (value : ℤ) :
    (f.write p value).length = p.length := by
  unfold write put
  split
  · rfl
  · split
    · rfl
    · exact writeBits_length ..

/-- `field_fits`: the physical value plus a synthetic delta is representable. -/
def fits (f : HidField) (physical synthetic : ℤ) : Bool :=
  synthetic == 0 ||
    (f.bits != 0 && decide (f.minimum ≤ physical + synthetic) &&
      decide (physical + synthetic ≤ f.maximum))

end HidField

structure MouseProfile where
  id : ℕ := 0
  size : ℕ := 0
  x : HidField := {}
  y : HidField := {}
  wheel : HidField := {}
  pan : HidField := {}
  /-- `std::map<int,HidField>`, by ascending usage. -/
  buttons : List (ℕ × HidField) := []
  relative : List HidField := []
deriving DecidableEq, Repr

namespace MouseProfile

/-- `matches`: the report has the layout's size and, with report IDs, its ID. -/
def accepts (m : MouseProfile) (p : List Byte) : Bool :=
  p.length == m.size && (m.id == 0 || (p.getD 0 0).toNat == m.id)

def buttonMask (m : MouseProfile) (p : List Byte) : Mask :=
  m.buttons.foldl (fun v b => if b.2.get p ≠ 0 then v ||| buttonBit b.1 else v) 0

def putButtons (m : MouseProfile) (p : List Byte) (mask : Mask) : List Byte :=
  m.buttons.foldl (fun p b => b.2.write p (if mask.getLsbD (b.1 - 1) then 1 else 0)) p

/-- Zero every relative field. -/
def zeroRelative (m : MouseProfile) (p : List Byte) : List Byte :=
  m.relative.foldl (fun p f => f.write p 0) p

@[simp] theorem putButtons_length (m : MouseProfile) (p : List Byte) (mask : Mask) :
    (m.putButtons p mask).length = p.length := by
  unfold putButtons
  induction m.buttons generalizing p with
  | nil => rfl
  | cons b l ih => rw [List.foldl_cons, ih, HidField.write_length]

@[simp] theorem zeroRelative_length (m : MouseProfile) (p : List Byte) :
    (m.zeroRelative p).length = p.length := by
  unfold zeroRelative
  induction m.relative generalizing p with
  | nil => rfl
  | cons f l ih => rw [List.foldl_cons, ih, HidField.write_length]

/-- `encode`: the axis writes stop at the first one that fails. -/
def encode (m : MouseProfile) (c : MouseCommand) (p : List Byte) : List Byte × Bool :=
  let p := m.putButtons (m.zeroRelative p) c.buttons
  let rx := m.x.put p c.x
  if !rx.2 then rx else
  let ry := m.y.put rx.1 c.y
  if !ry.2 then ry else
  let rw := m.wheel.put ry.1 c.wheel
  if !rw.2 then rw else
  m.pan.put rw.1 c.pan

/-- The declared buttons, as a mask. -/
def supported (m : MouseProfile) : Mask :=
  m.buttons.foldl (fun v b => v ||| buttonBit b.1) 0

end MouseProfile

/-! ### Splitting a command to the limits of a layout -/

/-- `take` of `split_mouse_command`: the part of `remaining` one report can carry. -/
def HidField.takePart (f : HidField) (remaining : ℤ) : Option ℤ :=
  if f.bits = 0 then (if remaining = 0 then some 0 else none)
  else
    let value := max f.minimum (min f.maximum remaining)
    if remaining ≠ 0 ∧ value = 0 then none else some value

/-- One report's part of a command. -/
def MouseProfile.splitPart (m : MouseProfile) (c : MouseCommand) : Option MouseCommand := do
  let x ← m.x.takePart c.x
  let y ← m.y.takePart c.y
  let wheel ← m.wheel.takePart c.wheel
  let pan ← m.pan.takePart c.pan
  pure { x, y, wheel, pan, buttons := c.buttons }

/-- What is left of a command after a part of it went out. -/
def MouseCommand.minus (c part : MouseCommand) : MouseCommand :=
  { c with x := c.x - part.x, y := c.y - part.y, wheel := c.wheel - part.wheel,
           pan := c.pan - part.pan }

/-- The loop of `split_mouse_command`, with `room` parts left to the limit of 32. -/
def MouseProfile.splitLoop (m : MouseProfile) : ℕ → MouseCommand → Option (List MouseCommand)
  | 0, _ => none
  | room + 1, c => do
    let part ← m.splitPart c
    if (c.minus part).noMotion then pure [part]
    else
      let rest ← m.splitLoop room (c.minus part)
      pure (part :: rest)

/-- `split_mouse_command`: the parts in order, empty when the command does not fit the layout. -/
def splitMouseCommand (m : MouseProfile) (c : MouseCommand) : List MouseCommand :=
  if c.buttons &&& ~~~m.supported ≠ 0 then [] else (m.splitLoop 32 c).getD []

end UsbProxy
