import Ferro.Block.Controller

/-!
# The initialization of the card (`Card::init` in `sd.rs`)

Beside the registers of the commands it uses three more, for the clock, the reported statuses and the capabilities.
-/

namespace Ferro.Sd

/-- The registers that only the initialization uses. -/
inductive HostReg where
  | clockTimeoutReset
  | intStatusEnable
  | capabilities
  deriving DecidableEq

inductive HostOp where
  | access (a : Access)
  | read (reg : HostReg) (v : UInt32)
  | write (reg : HostReg) (v : UInt32)
  deriving DecidableEq

/-- What the controller does after some accesses: with those of a program for the commands, and with the next read. -/
structure Host where
  controller : List HostOp → Controller
  value : List HostOp → HostReg → UInt32

/-- The interrupt status, and the accesses so far. -/
structure HostBus where
  status : UInt32
  trace : List HostOp

abbrev HostDriver := Traced HostBus SdError

/-- `Card`. The address was only kept. -/
structure InitializedCard extends Card where
  rca : UInt32

/-- RSTA. -/
def resetAllBit : UInt32 := (1 : UInt32) <<< 24

section

variable (h : Host)

/-- A program for the registers of the commands, with the controller as it is by now. -/
def lift {α : Type} (x : Controller → Driver α) : HostDriver α := ExceptT.mk fun b =>
  ((x (h.controller b.trace)).runs ⟨b.status, []⟩).map fun p =>
    (p.1, ⟨p.2.status, b.trace ++ p.2.trace.map .access⟩)

def readHost (reg : HostReg) : HostDriver UInt32 := Traced.step fun b =>
  let v := h.value b.trace reg
  (v, ⟨b.status, b.trace ++ [.read reg v]⟩)

def writeHost (reg : HostReg) (v : UInt32) : HostDriver Unit := Traced.step fun b =>
  ((), ⟨b.status, b.trace ++ [.write reg v]⟩)

/-- The loop of `wait_while`, for at most `fuel` rounds. -/
def waitLoopHost (deadline : UInt64) (cond : HostDriver Bool) : (fuel : Nat) → HostDriver Unit
  | 0 => Traced.stuck
  | fuel + 1 => do
    if ← cond then
      if deadline < (← lift h ticks) then
        throw .timeout
      else
        waitLoopHost deadline cond fuel
    else
      return ()

def waitWhileHost (fuel : Nat) (timeoutTicks : UInt64) (cond : HostDriver Bool) : HostDriver Unit := do
  let deadline := (← lift h ticks) + timeoutTicks
  waitLoopHost h deadline cond fuel

def resetAll (fuel : Nat) : HostDriver Unit := do
  writeHost .clockTimeoutReset resetAllBit
  waitWhileHost h fuel 100 do
    return (← readHost h .clockTimeoutReset) &&& resetAllBit ≠ 0

def baseClockHz : HostDriver UInt64 := do
  let caps ← readHost h .capabilities
  let mhz := (caps >>> 8) &&& 0x3F
  return mhz.toUInt64 * 1000000

/-- The loop of `set_clock` from a divisor on. -/
def divisorLoop (base targetHz : UInt64) : (fuel : Nat) → UInt32 → HostDriver UInt32
  | 0, _ => Traced.stuck
  | fuel + 1, divisor =>
    if base / (2 * divisor.toUInt64) > targetHz then divisorLoop base targetHz fuel (divisor + 1) else return divisor

def setClock (fuel : Nat) (targetHz : UInt64) : HostDriver Unit := do
  writeHost .clockTimeoutReset 0
  let base := max (← baseClockHz h) 1
  let divisor ← divisorLoop base targetHz fuel 1
  let clockCtrl := (divisor <<< 8) ||| ((1 : UInt32) <<< 0)
  writeHost .clockTimeoutReset clockCtrl
  waitWhileHost h fuel 1000 do
    return (← readHost h .clockTimeoutReset) &&& ((1 : UInt32) <<< 1) = 0
  let withSdClock := clockCtrl ||| ((1 : UInt32) <<< 2)
  writeHost .clockTimeoutReset withSdClock

/-- The first word of the response to a command without data. -/
def request (fuel : Nat) (index : UInt8) (arg : UInt32) (resp : RespType) : HostDriver UInt32 := do
  let r ← lift h fun c => sendCommand c fuel index arg resp .none
  return r.getD 0 0

/-- The loop of `init` that asks until the card is ready. -/
def readyLoop (fuel : Nat) (deadline : UInt64) : (rounds : Nat) → HostDriver UInt32
  | 0 => Traced.stuck
  | rounds + 1 => do
    let _ ← request h fuel 55 0 .r1
    let r3 ← request h fuel 41 0x40FF8000 .r1
    if r3 &&& ((1 : UInt32) <<< 31) ≠ 0 then
      return r3
    else if deadline < (← lift h ticks) then
      throw .timeout
    else
      readyLoop fuel deadline rounds

def init (fuel : Nat) : HostDriver InitializedCard := do
  resetAll h fuel
  writeHost .intStatusEnable 0xFFFFFFFF
  setClock h fuel 400000
  let _ ← request h fuel 0 0 .none
  let r7 ← request h fuel 8 0x1AA .r1
  if r7 &&& 0xFF ≠ 0xAA then
    throw .noCard
  let deadline := (← lift h ticks) + 500
  let ocr ← readyLoop h fuel deadline fuel
  let blockAddressed := ocr &&& ((1 : UInt32) <<< 30) ≠ 0
  let _ ← request h fuel 2 0 .r2
  let r6 ← request h fuel 3 0 .r1
  let rca := r6 &&& 0xFFFF0000
  setClock h fuel 25000000
  let _ ← request h fuel 7 rca .r1
  return { blockAddressed, rca }

end

end Ferro.Sd
