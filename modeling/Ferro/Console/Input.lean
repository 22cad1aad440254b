import Ferro.Boot.Events

/-!
# Console input (`efi/console.rs`, `hid.rs`)

The keys of the UART and of the USB keyboard. What has arrived and is not read yet is part of the state: the bytes in
the UART's FIFO, and what the next interrupt transfers of the keyboard bring. Without a UART there are no bytes, and
behind the pending transfers a transfer finds nothing. `CheckEvent` and `WaitForEvent` are those of `Events`, with the
console as the source of their readings.
-/

namespace Ferro

namespace Console

structure InputKey where
  scanCode : UInt16
  unicodeChar : UInt16
  deriving DecidableEq

def scanUp : UInt16 := 0x01

def scanDown : UInt16 := 0x02

def scanRight : UInt16 := 0x03

def scanLeft : UInt16 := 0x04

def scanEsc : UInt16 := 0x17

/-! ## Decoding -/

/-- The last byte of `ESC [ x`. -/
def arrowKey (b : UInt8) : Option InputKey :=
  if b = 0x41 then some ⟨scanUp, 0⟩
  else if b = 0x42 then some ⟨scanDown, 0⟩
  else if b = 0x43 then some ⟨scanRight, 0⟩
  else if b = 0x44 then some ⟨scanLeft, 0⟩
  else none

/-- A byte outside an escape sequence. -/
def plainKey (b : UInt8) : Option InputKey :=
  if b = 0x0D ∨ b = 0x0A then some ⟨0, 0x0D⟩
  else if b = 0x08 ∨ b = 0x7F then some ⟨0, 0x08⟩
  else if b = 0x09 then some ⟨0, 0x09⟩
  else if 0x20 ≤ b ∧ b ≤ 0x7E then some ⟨0, b.toUInt16⟩
  else none

/-- The key that a byte completes, and `ANSI.esc` behind it. -/
def uartByteToKey (esc b : UInt8) : Option InputKey × UInt8 :=
  if esc = 0 ∧ b = 0x1B then
    (none, 1)
  else if esc = 1 ∧ b = 0x5B then
    (none, 2)
  else if esc = 2 then
    (arrowKey b, 0)
  else if esc = 1 then
    (some ⟨scanEsc, 0⟩, 0)
  else
    (plainKey b, 0)

def hidCodeToKey (code : UInt8) : Option InputKey :=
  if 0x04 ≤ code ∧ code ≤ 0x1D then some ⟨0, (0x61 + (code - 0x04)).toUInt16⟩
  else if 0x1E ≤ code ∧ code ≤ 0x26 then some ⟨0, (0x31 + (code - 0x1E)).toUInt16⟩
  else if code = 0x27 then some ⟨0, 0x30⟩
  else if code = 0x28 then some ⟨0, 0x0D⟩
  else if code = 0x29 then some ⟨scanEsc, 0⟩
  else if code = 0x2A then some ⟨0, 0x08⟩
  else if code = 0x2B then some ⟨0, 0x09⟩
  else if code = 0x2C then some ⟨0, 0x20⟩
  else if code = 0x4F then some ⟨scanRight, 0⟩
  else if code = 0x50 then some ⟨scanLeft, 0⟩
  else if code = 0x51 then some ⟨scanDown, 0⟩
  else if code = 0x52 then some ⟨scanUp, 0⟩
  else none

/-! ## The keyboard -/

/-- What `usb::interrupt_in` brings: a report (the buffer behind it), nothing (a NAK), or an error. -/
inductive Transfer where
  | report (bytes : Bytes 8)
  | nak
  | failed

structure Keyboard where
  prevReport : Bytes 8
  pending : List Transfer

/-- The codes of a report that the previous one does not have. -/
def newCodes (prevReport report : Bytes 8) : List UInt8 :=
  (report.slice 2 6).filter fun code => code ≠ 0 && !(prevReport.slice 2 6).contains code

/-- `hid::poll_new_keys`; `none` is an error. -/
def pollNewKeys (kbd : Keyboard) : Option (Bytes 6) × Keyboard :=
  match kbd.pending with
  | [] => (some (.fill 0), kbd)
  | .nak :: pending => (some (.fill 0), { kbd with pending })
  | .failed :: pending => (none, { kbd with pending })
  | .report report :: pending =>
    (some (.ofList (newCodes kbd.prevReport report)), { prevReport := report, pending })

/-! ## Polling -/

/-- `ANSI`, and what the devices behind `UART_PTR` and `KEYBOARD_PTR` hold. -/
structure Input where
  esc : UInt8
  uart : List UInt8
  keyboard : Option Keyboard

def pollUart (inp : Input) : Option InputKey × Input :=
  match inp.uart with
  | [] => (none, inp)
  | b :: uart => ((uartByteToKey inp.esc b).1, { inp with esc := (uartByteToKey inp.esc b).2, uart })

/-- The first key among the codes of `poll_new_keys`. -/
def firstKey (codes : List UInt8) : Option InputKey :=
  codes.findSome? fun code => if code = 0 then none else hidCodeToKey code

def pollKeyboard (inp : Input) : Option InputKey × Input :=
  match inp.keyboard with
  | none => (none, inp)
  | some kbd =>
    match pollNewKeys kbd with
    | (none, kbd) => (none, { inp with keyboard := some kbd })
    | (some keys, kbd) => (firstKey keys.toList, { inp with keyboard := some kbd })

def pollKeyRaw (inp : Input) : Option InputKey × Input :=
  match pollUart inp with
  | (some k, inp) => (some k, inp)
  | (none, inp) => pollKeyboard inp

def keyAvailable (inp : Input) : Bool × Input := ((pollKeyRaw inp).1.isSome, (pollKeyRaw inp).2)

/-- The status, and what is written through `key`. -/
def readKeyStroke (key : OutPtr) (inp : Input) : (EfiStatus × Option InputKey) × Input :=
  if !key then
    ((.invalidParameter, none), inp)
  else
    match pollKeyRaw inp with
    | (some k, inp) => ((.success, some k), inp)
    | (none, inp) => ((.notReady, none), inp)

/-! ## Events -/

/-- What a test of event `i` finds on the console, which it polls for a `ConsoleIn` event only. -/
def sense (t : Events.Table) (i : Fin maxEvents) (inp : Input) : Bool × Input :=
  match (t.get i).kind with
  | .consoleIn => keyAvailable inp
  | .generic => (false, inp)
  | .timer => (false, inp)

/-- `CheckEvent` at a tick. -/
def check (ticks : UInt64) (t : Events.Table) (inp : Input) (event : UInt64) : EfiStatus × Events.Table × Input :=
  match Events.eventToIndex event with
  | none => (.invalidParameter, t, inp)
  | some i =>
    if (t.get i).inUse then
      let (key, inp) := sense t i inp
      let (st, t) := Events.check ⟨ticks, key⟩ t event
      (st, t, inp)
    else
      (.invalidParameter, t, inp)

/-- The tests of `WaitForEvent`, at the given ticks. -/
def waitLoop (events : List (Nat × Fin maxEvents)) :
    List UInt64 → (todo : List (Nat × Fin maxEvents)) → Events.Table → Input → Option (Nat × Events.Table × Input)
  | [], _, _, _ => none
  | ticks :: rest, todo, t, inp =>
    match if todo.isEmpty then events else todo with
    | [] => none
    | (idx, i) :: todo =>
      let (key, inp) := sense t i inp
      match Events.conditionMet ⟨ticks, key⟩ t i with
      | (true, t) => some (idx, Events.consume t i, inp)
      | (false, t) => waitLoop events rest todo t inp

def wait (ticks : List UInt64) (t : Events.Table) (inp : Input) (events : List UInt64) :
    Option (Except EfiStatus Nat × Events.Table × Input) :=
  if events.isEmpty then
    some (.error .invalidParameter, t, inp)
  else
    match events.mapM Events.eventToIndex with
    | none => some (.error .invalidParameter, t, inp)
    | some is => (waitLoop ((List.range is.length).zip is) ticks [] t inp).map fun (idx, t, inp) => (.ok idx, t, inp)

end Console

end Ferro
