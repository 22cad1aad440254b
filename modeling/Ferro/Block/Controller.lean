import Ferro.Base.Traced
import Ferro.Block.Model

/-!
# The SD host controller (`sd.rs`)

The single-block commands of the driver, access by access. Before an access the controller may set bits of the interrupt
status, which stay set until the driver writes 1 to them. What it does next depends on all accesses so far.
-/

namespace Ferro.Sd

inductive Reg where
  | blocksizeCount
  | arg1
  | transferCmd
  | resp0
  | resp1
  | resp2
  | resp3
  | buffer
  | presentState
  | intStatus
  deriving DecidableEq

def intCmdComplete : UInt32 := (1 : UInt32) <<< 0

def intTransferComplete : UInt32 := (1 : UInt32) <<< 1

def intBufferWriteReady : UInt32 := (1 : UInt32) <<< 4

def intBufferReadReady : UInt32 := (1 : UInt32) <<< 5

def intErrorMask : UInt32 := 0xFFFF0000

def presentCmdInhibit : UInt32 := (1 : UInt32) <<< 0

def presentDatInhibit : UInt32 := (1 : UInt32) <<< 1

inductive Op where
  | read (reg : Reg) (v : UInt32)
  | write (reg : Reg) (v : UInt32)
  | ticks (n : UInt64)
  deriving DecidableEq

/-- An access of the driver, with the status bits set since the one before. -/
structure Access where
  raised : UInt32
  op : Op
  deriving DecidableEq

/-- The controller and the timer: the bits of the status that become set, what the other registers hold, and the
ticks, after the accesses so far. -/
structure Controller where
  raised : List Access → UInt32
  value : List Access → Reg → UInt32
  ticks : List Access → UInt64

/-- The interrupt status, and the accesses so far. -/
structure Bus where
  status : UInt32
  trace : List Access

abbrev Driver := Traced Bus SdError

inductive RespType where
  | none
  | r2
  | r1
  deriving DecidableEq

inductive DataDir where
  | none
  | read
  | write
  deriving DecidableEq

section

variable (c : Controller)

/-- `mmio::read`. -/
def read (reg : Reg) : Driver UInt32 := Traced.step fun b =>
  let raised := c.raised b.trace
  let status := b.status ||| raised
  let v := if reg = .intStatus then status else c.value b.trace reg
  (v, ⟨status, b.trace ++ [⟨raised, .read reg v⟩]⟩)

/-- `mmio::write`. -/
def write (reg : Reg) (v : UInt32) : Driver Unit := Traced.step fun b =>
  let raised := c.raised b.trace
  let status := b.status ||| raised
  ((), ⟨if reg = .intStatus then status &&& ~~~v else status, b.trace ++ [⟨raised, .write reg v⟩]⟩)

/-- `timer::ticks`. -/
def ticks : Driver UInt64 := Traced.step fun b =>
  let raised := c.raised b.trace
  let n := c.ticks b.trace
  (n, ⟨b.status ||| raised, b.trace ++ [⟨raised, .ticks n⟩]⟩)

/-- The loop of `wait_while`, for at most `fuel` rounds. -/
def waitLoop (deadline : UInt64) (cond : Driver Bool) : (fuel : Nat) → Driver Unit
  | 0 => Traced.stuck
  | fuel + 1 => do
    if ← cond then
      if deadline < (← ticks c) then
        throw .timeout
      else
        waitLoop deadline cond fuel
    else
      return ()

def waitWhile (fuel : Nat) (timeoutTicks : UInt64) (cond : Driver Bool) : Driver Unit := do
  let deadline := (← ticks c) + timeoutTicks
  waitLoop c deadline cond fuel

/-- The response registers. -/
def sendCommand (fuel : Nat) (index : UInt8) (arg : UInt32) (resp : RespType) (data : DataDir) :
    Driver (List UInt32) := do
  waitWhile c fuel 200 do
    return (← read c .presentState) &&& (presentCmdInhibit ||| presentDatInhibit) ≠ 0
  write c .intStatus 0xFFFFFFFF
  write c .arg1 arg
  let respBits : UInt32 := match resp with
    | .none => 0b00
    | .r2 => 0b01
    | .r1 => 0b10
  let hasData := data ≠ .none
  let command : UInt32 := (index.toUInt32 <<< 24) ||| (respBits <<< 16) ||| (if hasData then (1 : UInt32) <<< 21 else 0)
  let transferMode : UInt32 := match data with
    | .none => 0
    | .read => ((1 : UInt32) <<< 1) ||| ((1 : UInt32) <<< 4)
    | .write => (1 : UInt32) <<< 1
  write c .transferCmd (command ||| transferMode)
  waitWhile c fuel 200 do
    return (← read c .intStatus) &&& (intCmdComplete ||| intErrorMask) = 0
  let status ← read c .intStatus
  if status &&& intErrorMask ≠ 0 then
    write c .intStatus 0xFFFFFFFF
    throw (.error status)
  write c .intStatus intCmdComplete
  return [← read c .resp0, ← read c .resp1, ← read c .resp2, ← read c .resp3]

/-- What `read_block` and `write_block` share: the command, the wait for the buffer, the words and the wait for the
end. -/
def transfer {α : Type} (fuel : Nat) (index : UInt8) (addr : UInt32) (data : DataDir) (ready : UInt32)
    (words : Driver α) : Driver α := do
  write c .blocksizeCount ((512 : UInt32) ||| ((1 : UInt32) <<< 16))
  let _ ← sendCommand c fuel index addr .r1 data
  waitWhile c fuel 200 do
    return (← read c .intStatus) &&& (ready ||| intErrorMask) = 0
  let status ← read c .intStatus
  if status &&& intErrorMask ≠ 0 then
    write c .intStatus 0xFFFFFFFF
    throw (.error status)
  write c .intStatus ready
  let out ← words
  waitWhile c fuel 200 do
    return (← read c .intStatus) &&& (intTransferComplete ||| intErrorMask) = 0
  write c .intStatus intTransferComplete
  return out

/-- The loop of `read_block` over the chunks from `i`, with `n` to go. -/
def readWords : (n i : Nat) → Sector → Driver Sector
  | 0, _, out => return out
  | n + 1, i, out => do
    let word ← read c .buffer
    readWords n (i + 1) (out.put (4 * i) (leBytes 4 word.toNat))

/-- The loop of `write_block` over the chunks from `i`, with `n` to go. -/
def writeWords (data : Sector) : (n i : Nat) → Driver Unit
  | 0, _ => return ()
  | n + 1, i => do
    write c .buffer (.ofNat (leNat (data.slice (4 * i) 4)))
    writeWords data n (i + 1)

def readBlock (fuel : Nat) (card : Card) (lba : UInt32) (out : Sector) : Driver Sector :=
  transfer c fuel 17 (card.address lba) .read intBufferReadReady (readWords c (512 / 4) 0 out)

def writeBlock (fuel : Nat) (card : Card) (lba : UInt32) (data : Sector) : Driver Unit :=
  transfer c fuel 24 (card.address lba) .write intBufferWriteReady (writeWords c data (512 / 4) 0)

end

/-! ## Errors in the status -/

/-- The accesses behind the one that issues the command. -/
def afterCommand (trace : List Access) : List Access :=
  (trace.dropWhile fun a => !(a.op matches .write .transferCmd _)).tail

/-- The accesses from the acknowledgement of the buffer's bit on. -/
def fromReady (ready : UInt32) (trace : List Access) : List Access :=
  trace.dropWhile fun a => a.op ≠ .write .intStatus ready

/-- No status that is read has an error bit. -/
def Clean (trace : List Access) : Prop := ∀ a ∈ trace, ∀ v, a.op = .read .intStatus v → v &&& intErrorMask = 0

/-- The controller sets no error bit before the last time that the status is read. -/
def Quiet (trace : List Access) : Prop :=
  ∀ before a after, trace = before ++ a :: after → (∃ b ∈ a :: after, ∃ v, b.op = .read .intStatus v) →
    a.raised &&& intErrorMask = 0

end Ferro.Sd
