import Ferro.Base.WriteBack
import Ferro.Types
import Mathlib.Data.Nat.Init

/-!
# Transactions by DMA (`usb.rs`, `cache.rs`)

The controller moves the data of a transaction between the device and memory, past the cache of the CPU. Before it reads
a buffer the driver cleans and invalidates its lines, but before it writes one the driver does not.
-/

namespace Ferro

/-- Memory as the CPU sees it. -/
abbrev Memory := WriteBack UInt8

/-- The end of the memory that `mmu.rs` maps as RAM. -/
def ramEnd : Nat := 0x3F000000

/-- A slice of bytes, by address. -/
structure Buffer where
  addr : Nat
  len : Nat
  inRam : addr + len ≤ ramEnd

namespace Cache

/-- `line_size`, from `CTR_EL0`. -/
def lineSize (ctr : UInt64) : Nat := 4 <<< ((ctr >>> 16) &&& 0xf).toNat

/-- `clean_and_invalidate_range`. The line size is a power of two, and `x & !(line - 1)` is the multiple of it below. -/
def cleanAndInvalidateRange (line : Nat) (m : Memory) (addr len : Nat) : Memory :=
  let start := addr / line * line
  let stop := (addr + len + line - 1) / line * line
  m.cleanInvalidateFrom line ((stop - start) / line) (start / line)

end Cache

namespace Usb

inductive UsbError where
  | timeout
  | noDevice
  | transferError (hcint : UInt32)
  | stall
  deriving DecidableEq

def hcintStall : UInt32 := (1 : UInt32) <<< 3

def hcintNak : UInt32 := (1 : UInt32) <<< 4

def hcintXacterr : UInt32 := (1 : UInt32) <<< 7

structure Device where
  addr : UInt32
  maxPacketSize : UInt32
  lowSpeed : Bool

/-- The registers of channel 0 that start a transaction. -/
structure Channel where
  hcdma : UInt32
  hctsiz : UInt32
  hcchar : UInt32

/-- What becomes of a transaction: the bytes that come in and the number that go out, and the interrupt status at the end
of the wait unless that times out. -/
structure Reply where
  received : List UInt8
  sent : Nat
  hcint : Option UInt32

/-- The controller and the devices. A transaction can depend on the registers and on what is in memory. -/
abbrev Controller := Channel → (Nat → UInt8) → Reply

/-- `XferSize`. -/
def Channel.xferSize (channel : Channel) : Nat := (channel.hctsiz &&& 0x7FFFF).toNat

/-- The bytes that the controller writes to memory, no more than the transfer size. -/
def Channel.written (channel : Channel) (epDirIn : Bool) (reply : Reply) : List UInt8 :=
  if epDirIn then reply.received.take channel.xferSize else []

/-- `XferSize` after the transaction, counted down by what was moved. -/
def Channel.remaining (channel : Channel) (epDirIn : Bool) (reply : Reply) : Nat :=
  channel.xferSize - if epDirIn then (channel.written epDirIn reply).length else reply.sent

def hcchar (epDirIn : Bool) (epNum epType devAddr mps : UInt32) (lowSpeed : Bool) : UInt32 :=
  (mps &&& (0x7FF : UInt32)) ||| ((epNum &&& (0xF : UInt32)) <<< 11) ||| (epDirIn.toUInt32 <<< 15) |||
    (lowSpeed.toUInt32 <<< 17) ||| (epType <<< 18) ||| ((1 : UInt32) <<< 20) |||
    ((devAddr &&& (0x7F : UInt32)) <<< 22)

/-- The registers that `transact` writes, or `none` where it divides by zero. -/
def channelFor (dev : Device) (epNum epType : UInt32) (epDirIn : Bool) (pid : UInt32) (buf : Buffer) : Option Channel :=
  if buf.len ≠ 0 ∧ dev.maxPacketSize = 0 then
    none
  else
    let pktCnt := if buf.len = 0 then 1 else (buf.len + dev.maxPacketSize.toNat - 1) / dev.maxPacketSize.toNat
    some {
      hcdma := buf.addr.toUInt32
      hctsiz := (buf.len.toUInt32 &&& (0x7FFFF : UInt32)) ||| ((pktCnt.toUInt32 &&& (0x3FF : UInt32)) <<< 19) |||
        (pid <<< 29)
      hcchar := hcchar epDirIn epNum epType dev.addr dev.maxPacketSize dev.lowSpeed ||| ((1 : UInt32) <<< 31)
    }

/-- The result and the memory afterwards. A panic is `none`. -/
def transact (usb : Controller) (line : Nat) (m : Memory) (dev : Device) (epNum epType : UInt32) (epDirIn : Bool)
    (pid : UInt32) (buf : Buffer) : Option (Except UsbError Nat × Memory) :=
  match channelFor dev epNum epType epDirIn pid buf with
  | none => none
  | some channel =>
    let m := if epDirIn then m else Cache.cleanAndInvalidateRange line m buf.addr (max buf.len 1)
    let reply := usb channel m.ram
    let m := m.deviceWrite channel.hcdma.toNat (channel.written epDirIn reply)
    match reply.hcint with
    | none => some (.error .timeout, m)
    | some hcint =>
      if hcint &&& hcintStall ≠ 0 then
        some (.error .stall, m)
      else if hcint &&& (hcintXacterr ||| ((1 : UInt32) <<< 2) ||| ((1 : UInt32) <<< 10)) ≠ 0 then
        some (.error (.transferError hcint), m)
      else if hcint &&& hcintNak ≠ 0 then
        some (.error (.transferError hcint), m)
      else
        let actual := buf.len - channel.remaining epDirIn reply
        if epDirIn ∧ 0 < actual then
          some (.ok actual, Cache.cleanAndInvalidateRange line m buf.addr actual)
        else
          some (.ok actual, m)

end Usb

end Ferro
