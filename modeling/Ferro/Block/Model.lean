import Ferro.Files.Model

/-!
# Block I/O (`efi/block_io.rs`) and the transfers of the card (`sd.rs`)

`EFI_BLOCK_IO_PROTOCOL` over single-block commands. A block number becomes a `u32` argument, which an older card takes
as the number of a byte. Every call comes with the commands that fail in it.
-/

namespace Ferro

/-- The part of the card in `SD_CONTEXT` that a transfer uses. -/
structure Card where
  blockAddressed : Bool

/-- What the blocks of the card hold, and how many commands the card was sent. -/
structure Medium where
  content : Disk
  commands : Nat

namespace Card

variable (card : Card)

/-- The argument of the command. -/
def address (lba : UInt32) : UInt32 := if card.blockAddressed then lba else lba * 512

/-- The block that the card transfers for an argument. -/
def blockAt (addr : UInt32) : Nat := if card.blockAddressed then addr.toNat else addr.toNat / 512

def readBlock (fault : Option SdError) (m : Medium) (lba : UInt32) : Except SdError Sector × Medium :=
  let addr := card.address lba
  let m := { m with commands := m.commands + 1 }
  match fault with
  | some e => (.error e, m)
  | none => (.ok (m.content (card.blockAt addr)), m)

def writeBlock (fault : Option SdError) (m : Medium) (lba : UInt32) (data : Sector) : Except SdError Unit × Medium :=
  let addr := card.address lba
  let m := { m with commands := m.commands + 1 }
  match fault with
  | some e => (.error e, m)
  | none => (.ok (), { m with content := Function.update m.content (card.blockAt addr) data })

end Card

namespace Block

/-- `MEDIA.last_block`. -/
def lastBlock : UInt64 := 0x0FFFFFFF

/-- `data[i * SECTOR_SIZE..(i + 1) * SECTOR_SIZE]`. -/
def sectorAt (data : Ptr8) (i : Nat) : Sector := ⟨fun j => data (i * sectorSize + j.val)⟩

/-- `out[i * SECTOR_SIZE..(i + 1) * SECTOR_SIZE].copy_from_slice(&sector)`. -/
def putSector (out : Ptr8) (i : Nat) (sector : Sector) : Ptr8 := fun k =>
  if i * sectorSize ≤ k ∧ k < (i + 1) * sectorSize then sector.nth (k - i * sectorSize) else out k

/-- The loop of `block_read` from sector `i`, with `n` more to go. -/
def readLoop (card : Card) (faults : Faults) (lba : UInt64) :
    (n i : Nat) → Medium → Ptr8 → EfiStatus × Ptr8 × Medium
  | 0, _, m, out => (.success, out, m)
  | n + 1, i, m, out =>
    match card.readBlock (faults i) m (lba.toUInt32 + .ofNat i) with
    | (.error _, m) => (.deviceError, out, m)
    | (.ok sector, m) => readLoop card faults lba n (i + 1) m (putSector out i sector)

def blockRead (context : Option Card) (faults : Faults) (m : Medium) (lba bufferSize : UInt64)
    (buffer : Option Ptr8) : EfiStatus × Option Ptr8 × Medium :=
  match buffer with
  | none => (.invalidParameter, none, m)
  | some out =>
    if bufferSize.toNat % sectorSize ≠ 0 then
      (.invalidParameter, some out, m)
    else
      match context with
      | none => (.deviceError, some out, m)
      | some card =>
        let count := bufferSize.toNat / sectorSize
        let (status, out, m) := readLoop card faults lba count 0 m out
        (status, some out, m)

/-- The loop of `block_write` from sector `i`, with `n` more to go. -/
def writeLoop (card : Card) (faults : Faults) (lba : UInt64) (data : Ptr8) : (n i : Nat) → Medium → EfiStatus × Medium
  | 0, _, m => (.success, m)
  | n + 1, i, m =>
    match card.writeBlock (faults i) m (lba.toUInt32 + .ofNat i) (sectorAt data i) with
    | (.error _, m) => (.deviceError, m)
    | (.ok _, m) => writeLoop card faults lba data n (i + 1) m

def blockWrite (context : Option Card) (faults : Faults) (m : Medium) (lba bufferSize : UInt64)
    (buffer : Option Ptr8) : EfiStatus × Medium :=
  match buffer with
  | none => (.invalidParameter, m)
  | some data =>
    if bufferSize.toNat % sectorSize ≠ 0 then
      (.invalidParameter, m)
    else
      match context with
      | none => (.deviceError, m)
      | some card => writeLoop card faults lba data (bufferSize.toNat / sectorSize) 0 m

end Block

end Ferro
