import UsbProxy.Mixer.Registry

/-!
# The ASCII commands (`udp_server.cpp`)

The `km.` shorthands and the `+` commands, with the `istringstream` extractions they are read
with.  A byte of the datagram is one character.
-/

namespace UsbProxy.Ascii

open Bits

/-- The text of a datagram, without its trailing line ends. -/
def textOf (data : List Byte) : List Char :=
  (data.map fun b => Char.ofNat b.toNat).rdropWhile fun c => c == '\n' || c == '\r'

/-- `std::isspace` of the classic locale. -/
def isSpace (c : Char) : Bool := c == ' ' || decide (9 ≤ c.toNat ∧ c.toNat ≤ 13)

def skipSpace (s : List Char) : List Char := s.dropWhile isSpace

/-- `stream>>word`; `none` at the end of the stream. -/
def word (s : List Char) : Option (List Char × List Char) :=
  let s := skipSpace s
  if s.isEmpty then none
  else some (s.takeWhile fun c => !isSpace c, s.dropWhile fun c => !isSpace c)

/-- The value of a run of decimal digits. -/
def decimal (digits : List Char) : ℕ :=
  digits.foldl (fun n c => 10 * n + (c.toNat - '0'.toNat)) 0

/-- `stream>>value` of an `int`; `none` when there are no digits or the value overflows. -/
def int (s : List Char) : Option (ℤ × List Char) :=
  let s := skipSpace s
  let negative := s.head? == some '-'
  let s := if s.head? = some '-' ∨ s.head? = some '+' then s.tail else s
  let digits := s.takeWhile Char.isDigit
  let value : ℤ := if negative then -(decimal digits : ℤ) else decimal digits
  if digits.isEmpty ∨ value < -2 ^ 31 ∨ 2 ^ 31 - 1 < value then none
  else some (value, s.dropWhile Char.isDigit)

/-- The text after the `km.` and `.name(…)` rewriting; `none` for `error syntax`. -/
def normalise (text : List Char) : Option (List Char) :=
  let text := if ['k', 'm', '.'].isPrefixOf text then text.drop 2 else text
  if text.head? = some '.' then
    let at_ := text.findIdx (· == '(')
    if at_ = text.length ∨ text.getLast? ≠ some ')' then none
    else
      let name := (text.take at_).drop 1
      let args := (text.drop (at_ + 1)).dropLast
      some (('+' :: name ++ ' ' :: args).map fun c => if c = ',' then ' ' else c)
  else some text

/-- What an ASCII command other than `+release` asks for. -/
structure Command where
  command : MouseCommand := {}
  button : ℕ := 1
  click : Bool := false
  next : Mask := 0
deriving DecidableEq, Repr

/-- The hold mask with one button set or cleared. -/
def withButton (mask : Mask) (button : ℕ) (down : Bool) : Mask :=
  if down then mask ||| buttonBit button else mask &&& ~~~buttonBit button

/-- The button argument of `+mousedown`, `+mouseup` and `+click`, `1` when absent. -/
def buttonArgument (s : List Char) : Option (ℤ × List Char) :=
  if (skipSpace s).isEmpty then some (1, []) else int s

/-- The button of one of the state commands `+left`, …, `+side2`. -/
def stateButton (name : String) : Option ℕ :=
  if name = "+left" then some 1 else if name = "+right" then some 2
  else if name = "+middle" then some 3 else if name = "+side1" then some 4
  else if name = "+side2" then some 5 else none

/-- The command `name` with its arguments `s` and what is left of them; `none` for a command that
is not valid and `error` for `error button`. -/
def arguments (name : String) (s : List Char) (held : Mask) :
    Except String (Option (Command × List Char)) :=
  if name = "+move" then
    .ok <| (int s).bind fun (x, s) => (int s).map fun (y, s) =>
      ({ command := { x, y }, next := held }, s)
  else if name = "+wheel" then
    .ok <| (int s).map fun (wheel, s) => ({ command := { wheel }, next := held }, s)
  else if name = "+pan" then
    .ok <| (int s).map fun (pan, s) => ({ command := { pan }, next := held }, s)
  else if name = "+mousedown" ∨ name = "+mouseup" ∨ name = "+click" then
    match buttonArgument s with
    | none => .error "error button"
    | some (button, s) =>
      if 1 ≤ button ∧ button ≤ 8 then
        let button := button.toNat
        let click : Bool := name = "+click"
        let next := if click then held else withButton held button (name = "+mousedown")
        .ok (some ({ button, click, next }, s))
      else .ok none
  else
    match stateButton name, int s with
    | some button, some (value, s) =>
      if value = 0 ∨ value = 1 then
        .ok (some ({ button, next := withButton held button (value = 1) }, s))
      else .ok none
    | _, _ => .ok none

/-- The command of a stream after its name, or the reply that refuses it. -/
def parse (name : String) (s : List Char) (held : Mask) : Except String Command :=
  match arguments name s held with
  | .error reply => .error reply
  | .ok none => .error "error command"
  | .ok (some (command, s)) => if (word s).isSome then .error "error command" else .ok command

/-- `mouse_state_text` of a snapshot. -/
def stateText (e : EndpointSnapshot) : String :=
  if !e.ready then "not_ready"
  else
    let synthetic := e.persistent ||| e.scheduled
    "state " ++ toString e.physical.toNat ++ " " ++ toString synthetic.toNat ++ " " ++
      toString (e.physical ||| synthetic).toNat ++ " " ++ toString e.xmin ++ " " ++
      toString e.xmax ++ " " ++ toString e.ymin ++ " " ++ toString e.ymax

end UsbProxy.Ascii
