import Ferro.Base.Monitor
import Ferro.Block.Errors
import Ferro.Block.Init

/-!
# The protocol of the card

What the controller and the card allow, as far as the driver can know their states: the clock, the commands of each state
of the card with their answers, and the words of a block.
-/

namespace Ferro.Sd

/-! ## The clock -/

inductive Clock where
  | resetting
  | off
  | starting (divisor : UInt32)
  | stable (divisor : UInt32)
  | running (divisor : UInt32)
  deriving DecidableEq

/-- The card gets a clock only when it is stable, with the same divisor, which fits in its bits. -/
def Clock.write (clock : Clock) (v : UInt32) : Option Clock :=
  if v = 0 ∧ clock ≠ .resetting then
    some .off
  else if v >>> 16 ≠ 0 then
    none
  else
    match clock with
    | .off => if v &&& 0xFF = 0b001 then some (.starting (v >>> 8)) else none
    | .stable divisor => if v &&& 0xFF = 0b101 ∧ v >>> 8 = divisor then some (.running divisor) else none
    | _ => none

def Clock.read (v : UInt32) : Clock → Clock
  | .resetting => if v &&& resetAllBit = 0 then .off else .resetting
  | .starting divisor => if v &&& ((1 : UInt32) <<< 1) = 0 then .starting divisor else .stable divisor
  | clock => clock

/-- The clock of the card is on, and not faster than `hz`, for a base of `mhz`. -/
def Clock.Within (mhz : UInt32) (hz : Nat) : Clock → Prop
  | .running divisor => mhz.toNat * 1000000 ≤ hz * (2 * divisor.toNat)
  | _ => False

instance (mhz : UInt32) (hz : Nat) (clock : Clock) : Decidable (clock.Within mhz hz) := by
  cases clock <;> simp only [Clock.Within] <;> infer_instance

/-! ## The card -/

/-- A command, from what is written to its registers. -/
structure Request where
  index : Nat
  resp : Nat
  data : DataDir
  arg : UInt32
  deriving DecidableEq

def Request.decode (command arg : UInt32) : Request where
  index := (command >>> 24).toNat
  resp := ((command >>> 16) &&& 0b11).toNat
  data :=
    if command &&& ((1 : UInt32) <<< 21) = 0 then .none
    else if command &&& ((1 : UInt32) <<< 4) = 0 then .write
    else .read
  arg

/-- The states of the card, from the reset to the transfers. From the answers the driver knows whether the card takes
numbers of blocks, and its address. -/
inductive Phase where
  | unknown
  | idle
  | supplied
  | application
  | ready (blocks : Bool)
  | identified (blocks : Bool)
  | standby (rca : UInt32) (blocks : Bool)
  | transfer (rca : UInt32) (blocks : Bool)
  deriving DecidableEq

/-- The state behind the answer, for the commands that the card takes in a state. -/
def Phase.serve (phase : Phase) (r : Request) : Option (UInt32 → Phase) :=
  if r = ⟨0, 0b00, .none, 0⟩ then
    some fun _ => .idle
  else
    match phase with
    | .idle =>
      if r = ⟨8, 0b10, .none, 0x1AA⟩ then some fun r7 => if r7 &&& 0xFF = 0xAA then .supplied else .idle else none
    | .supplied => if r = ⟨55, 0b10, .none, 0⟩ then some fun _ => .application else none
    | .application =>
      if r = ⟨41, 0b10, .none, 0x40FF8000⟩ then
        some fun r3 =>
          if r3 &&& ((1 : UInt32) <<< 31) = 0 then .supplied else .ready (r3 &&& ((1 : UInt32) <<< 30) ≠ 0)
      else none
    | .ready blocks => if r = ⟨2, 0b01, .none, 0⟩ then some fun _ => .identified blocks else none
    | .identified blocks =>
      if r = ⟨3, 0b10, .none, 0⟩ then some fun r6 => .standby (r6 &&& 0xFFFF0000) blocks else none
    | .standby rca blocks => if r = ⟨7, 0b10, .none, rca⟩ then some fun _ => .transfer rca blocks else none
    | .transfer rca blocks =>
      if (r = ⟨17, 0b10, .read, r.arg⟩ ∨ r = ⟨24, 0b10, .write, r.arg⟩) ∧ (blocks ∨ r.arg.toNat % 512 = 0) then
        some fun _ => .transfer rca blocks
      else none
    | .unknown => none

/-- The fastest clock, in Hz. -/
def Phase.limit : Phase → Nat
  | .standby _ _ | .transfer _ _ => 25000000
  | _ => 400000

/-! ## The accesses -/

/-- What is known on the driver's side. Of a block, how many words are left, and whether the controller is ready for
them. -/
structure Line where
  enabled : UInt32
  mhz : UInt32
  clock : Clock
  free : Bool
  cleared : Bool
  complete : Bool
  arg : UInt32
  size : UInt32
  pending : Option Request
  phase : Phase
  dir : DataDir
  left : Nat
  ready : Bool

/-- Nothing is known. -/
def Line.unknown (clock : Clock) : Line :=
  ⟨0, 0, clock, false, false, false, 0, 0, none, .unknown, .none, 0, false⟩

/-- One block of 512 bytes. -/
def blockSize : UInt32 := (512 : UInt32) ||| ((1 : UInt32) <<< 16)

/-- A command needs all statuses reported, a controller that was free since the last one, a cleared status, a clock for
the state of the card, and a card that takes it. -/
def Line.issue (l : Line) (command : UInt32) : Option Line :=
  let r := Request.decode command l.arg
  if l.enabled = 0xFFFFFFFF ∧ l.free ∧ l.cleared ∧ l.clock.Within l.mhz l.phase.limit ∧
      (r.data ≠ .none → l.size = blockSize) ∧ (l.phase.serve r).isSome then
    some { l with free := false, cleared := false, complete := false, pending := some r, dir := r.data,
                  left := if r.data = .none then 0 else 128, ready := false }
  else none

def bufferReady : DataDir → UInt32
  | .read => intBufferReadReady
  | .write => intBufferWriteReady
  | .none => 0

/-- What a status without an error says. -/
def Line.observe (l : Line) (v : UInt32) : Line :=
  if v &&& intErrorMask = 0 then
    { l with complete := l.complete || v &&& intCmdComplete ≠ 0, ready := l.ready || v &&& bufferReady l.dir ≠ 0 }
  else l

/-- The response is there when the command is complete. -/
def Line.answer (l : Line) (v : UInt32) : Option Line :=
  match l.pending.bind l.phase.serve with
  | none => some l
  | some f => if l.complete then some { l with phase := f v, pending := none } else none

def Line.word (l : Line) (dir : DataDir) : Option Line :=
  if l.dir = dir ∧ l.ready ∧ 0 < l.left then some { l with left := l.left - 1 } else none

/-- An access to a register of the commands. When the controller is free, no block is on the way. -/
def Line.access (l : Line) : Op → Option Line
  | .read .presentState v =>
    some (if v &&& (presentCmdInhibit ||| presentDatInhibit) = 0 then
      { l with free := true, dir := .none, left := 0, ready := false } else l)
  | .write .intStatus v => some (if v = 0xFFFFFFFF then { l with cleared := true } else l)
  | .write .arg1 v => some { l with arg := v }
  | .write .blocksizeCount v => some { l with size := v }
  | .write .transferCmd v => l.issue v
  | .read .intStatus v => some (l.observe v)
  | .read .resp0 v => l.answer v
  | .read .buffer _ => l.word .read
  | .write .buffer _ => l.word .write
  | .read _ _ | .ticks _ => some l
  | .write _ _ => none

/-- A reset leaves nothing known, and until it is over neither the clock nor the reported statuses are set. -/
def Line.step (l : Line) : HostOp → Option Line
  | .write .clockTimeoutReset v =>
    if v = resetAllBit then some (.unknown .resetting)
    else (l.clock.write v).map fun clock => { l with clock }
  | .read .clockTimeoutReset v => some { l with clock := l.clock.read v }
  | .write .intStatusEnable v => if l.clock = .resetting then none else some { l with enabled := v }
  | .read .capabilities v => some { l with mhz := (v >>> 8) &&& 0x3F }
  | .read .intStatusEnable _ => some l
  | .write .capabilities _ => none
  | .access a => l.access a.op

/-- The protocol for a program for the registers of the commands, behind other accesses. -/
def busMonitor (before : List HostOp) : Monitor Line HostOp Bus where
  step := Line.step
  start := .unknown .off
  trace b := before ++ b.trace.map .access

def hostMonitor : Monitor Line HostOp HostBus where
  step := Line.step
  start := .unknown .off
  trace := HostBus.trace

end Ferro.Sd
