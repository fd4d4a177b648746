import UsbProxy.Hid.Layout
import Mathlib.Logic.Function.Basic

/-!
# The report descriptor parser (`parse_mouse_descriptor`)

HID short items, global push and pop, report IDs, usage ranges and nested collections.  The state
of the loop is `Parse`; `none` is the source's `return {}`.  The `std::map`s keyed by report ID
are functions, enumerated at the end over the IDs an item can set (`0` to `255`).
-/

namespace UsbProxy

open Bits

/-- `int(v)` of a 32-bit item value. -/
def toInt32 (v : ℕ) : ℤ := if v < 2 ^ 31 then v else (v : ℤ) - 2 ^ 32

/-- The global item state (`struct Global`). -/
structure Global where
  page : ℕ := 0
  size : ℤ := 0
  count : ℤ := 0
  id : ℕ := 0
  min : ℤ := 0
  max : ℤ := 0
deriving DecidableEq, Repr

/-- The variables of the parser loop. -/
structure Parse where
  g : Global := {}
  stack : List Global := []
  collections : List Bool := []
  profiles : ℕ → Option MouseProfile := fun _ => none
  offsets : ℕ → ℕ := fun _ => 0
  shared : ℕ → Bool := fun _ => false
  usages : List ℕ := []
  umin : ℕ := 0
  umax : ℕ := 0
  range : Bool := false

namespace Parse

/-- The sign-extended item value. -/
def signed (len v : ℕ) : ℤ :=
  if len = 0 ∨ len = 4 then toInt32 v
  else if v.testBit (8 * len - 1) then (v : ℤ) - 2 ^ (8 * len) else v

/-- A global item (type 1). -/
def global (s : Parse) (tag len v : ℕ) : Option Parse :=
  let sv := signed len v
  match tag with
  | 0 => some { s with g := { s.g with page := v } }
  | 1 => some { s with g := { s.g with min := sv } }
  | 2 => some { s with g := { s.g with max := if s.g.min < 0 then sv else toInt32 v } }
  | 7 => some { s with g := { s.g with size := toInt32 v } }
  | 8 => if v = 0 ∨ 255 < v then none else some { s with g := { s.g with id := v } }
  | 9 => some { s with g := { s.g with count := toInt32 v } }
  | 10 => some { s with stack := s.g :: s.stack }
  | 11 =>
    match s.stack with
    | [] => none
    | g :: stack => some { s with g, stack }
  | _ => some s

/-- A local item (type 2): usages and usage ranges. -/
def usage (s : Parse) (tag len v : ℕ) : Parse :=
  let u := if len = 4 then v else (s.g.page * 2 ^ 16) % 2 ^ 32 ||| v
  match tag with
  | 0 => { s with usages := s.usages ++ [u] }
  | 1 => { s with umin := u, range := true }
  | 2 => { s with umax := u }
  | _ => s

/-- The usage of field `i` of an input item. -/
def usageAt (s : Parse) (i : ℕ) : ℕ :=
  if h : i < s.usages.length then s.usages[i]
  else if s.range ∧ (s.umin + i) % 2 ^ 32 ≤ s.umax then (s.umin + i) % 2 ^ 32
  else 0

/-- `r.buttons[usage]=f` on the ordered map. -/
def setButton (usage : ℕ) (f : HidField) : List (ℕ × HidField) → List (ℕ × HidField)
  | [] => [(usage, f)]
  | b :: rest =>
    if usage < b.1 then (usage, f) :: b :: rest
    else if usage = b.1 then (usage, f) :: rest
    else b :: setButton usage f rest

/-- A usable field with usage `u`: where it goes in the profile. -/
def place (r : MouseProfile) (relative : Bool) (u : ℕ) (f : HidField) : Option MouseProfile :=
  let r := if relative then { r with relative := r.relative ++ [f] } else r
  if u = 0x10030 ∧ relative then if r.x.bits ≠ 0 then none else some { r with x := f }
  else if u = 0x10031 ∧ relative then if r.y.bits ≠ 0 then none else some { r with y := f }
  else if u = 0x10038 ∧ relative then some { r with wheel := f }
  else if u = 0xc0238 ∧ relative then some { r with pan := f }
  else if u / 2 ^ 16 = 9 ∧ 1 ≤ u % 2 ^ 16 ∧ u % 2 ^ 16 ≤ 8 ∧ f.bits = 1 then
    some { r with buttons := setButton (u % 2 ^ 16) f r.buttons }
  else some r

/-- The field loop of an input item: `i` is the next field. -/
def fields (s : Parse) (off : ℕ) (v : ℕ) (mouse : Bool) : ℕ → ℕ → MouseProfile →
    Option MouseProfile
  | 0, _, r => some r
  | left + 1, i, r =>
    let g := s.g
    let size := g.size.toNat
    if mouse ∧ ¬ v.testBit 0 ∧ v.testBit 1 ∧ 0 < size ∧ size ≤ 16 ∧
        g.min ≤ 0 ∧ 0 ≤ g.max ∧ g.min < g.max then
      let lower : ℤ := if g.min < 0 then -2 ^ (size - 1) else 0
      let upper : ℤ := if g.min < 0 then 2 ^ (size - 1) - 1 else 2 ^ size - 1
      if g.min < lower ∨ upper < g.max then none
      else
        match place r (v.testBit 2) (s.usageAt i)
            { offset := off + i * size, bits := size, minimum := g.min, maximum := g.max } with
        | none => none
        | some r => fields s off v mouse left (i + 1) r
    else fields s off v mouse left (i + 1) r

/-- The innermost collection is a mouse. -/
def inMouse (s : Parse) : Bool := s.collections.headD false

/-- An input item (type 0, tag 8). -/
def input (s : Parse) (v : ℕ) : Option Parse :=
  let g := s.g
  if g.size < 0 ∨ 32 < g.size ∨ g.count < 0 ∨ 4096 < g.count then none
  else
    let off := if s.offsets g.id = 0 ∧ g.id ≠ 0 then 8 else s.offsets g.id
    let size := g.size.toNat
    let count := g.count.toNat
    if 32768 < off + size * count then none
    else
      let r := { (s.profiles g.id).getD {} with id := g.id }
      let mouse := s.inMouse
      let shared := if !mouse && !v.testBit 0 then Function.update s.shared g.id true else s.shared
      if mouse ∧ ¬ v.testBit 0 ∧ v.testBit 2 ∧
          (¬ v.testBit 1 ∨ size < 1 ∨ 16 < size ∨ 0 < g.min ∨ g.max < 0 ∨ g.max ≤ g.min) then none
      else
        match fields s off v mouse count 0 r with
        | none => none
        | some r =>
          let off := off + size * count
          some { s with
            shared
            offsets := Function.update s.offsets g.id off
            profiles := Function.update s.profiles g.id (some { r with size := (off + 7) / 8 }) }

/-- A main item (type 0); it ends the local items. -/
def main (s : Parse) (tag v : ℕ) : Option Parse :=
  let done (s : Parse) : Parse := { s with usages := [], range := false, umin := 0, umax := 0 }
  if tag = 10 then
    let mouse := if v = 1 then s.usages.head? == some 0x10002 else s.inMouse
    some (done { s with collections := mouse :: s.collections })
  else if tag = 12 then
    match s.collections with
    | [] => none
    | _ :: collections => some (done { s with collections })
  else if tag = 8 then (s.input v).map done
  else some (done s)

/-- One item with its value. -/
def item (s : Parse) (pre : Byte) (len v : ℕ) : Option Parse :=
  let type := pre.toNat / 4 % 4
  let tag := pre.toNat / 16
  if type = 1 then s.global tag len v
  else if type = 2 then some (s.usage tag len v)
  else if type = 0 then s.main tag v
  else some s

/-- The item loop; an item takes its value from the 0, 1, 2 or 4 bytes after its prefix. -/
def items : List Byte → Parse → Option Parse
  | [], s => some s
  | pre :: rest, s =>
    if pre = 0xfe then none
    else if pre.toNat % 4 = 0 then (s.item pre 0 0).bind fun s => items rest s
    else if pre.toNat % 4 = 1 then
      match rest with
      | a :: rest => (s.item pre 1 a.toNat).bind fun s => items rest s
      | _ => none
    else if pre.toNat % 4 = 2 then
      match rest with
      | a :: b :: rest => (s.item pre 2 (a.toNat + b.toNat * 2 ^ 8)).bind fun s => items rest s
      | _ => none
    else
      match rest with
      | a :: b :: c :: d :: rest =>
        (s.item pre 4 (a.toNat + b.toNat * 2 ^ 8 + c.toNat * 2 ^ 16 + d.toNat * 2 ^ 24)).bind
          fun s => items rest s
      | _ => none

/-- The layouts found, by ascending report ID. -/
def result (s : Parse) : List MouseProfile :=
  (List.range 256).filterMap fun id =>
    (s.profiles id).filter fun r =>
      !s.shared id && r.x.bits != 0 && r.y.bits != 0 && !r.buttons.isEmpty

end Parse

/-- `parse_mouse_descriptor` -/
def parseMouseDescriptor (data : List Byte) : List MouseProfile :=
  match Parse.items data {} with
  | none => []
  | some s => if s.collections.isEmpty ∧ s.stack.isEmpty then s.result else []

/-- The boot protocol's layout, installed by `set_mouse_protocol`. -/
def bootProfile : MouseProfile :=
  let x : HidField := ⟨8, 8, -127, 127⟩
  let y : HidField := ⟨16, 8, -127, 127⟩
  { size := 3, x, y, relative := [x, y]
    buttons := [(1, ⟨0, 1, 0, 1⟩), (2, ⟨1, 1, 0, 1⟩), (3, ⟨2, 1, 0, 1⟩)] }

end UsbProxy
