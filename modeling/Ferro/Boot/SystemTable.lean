import Ferro.Boot.Model

/-!
# The system table (`efi/system_table.rs`)

The table as it lies in memory, and the code that stores into it: `system_table::init`, `console::init` and
`InstallConfigurationTable`. Nothing else in the firmware writes to `SYSTEM_TABLE`.
-/

namespace Ferro

structure EfiTableHeader where
  signature : UInt64
  revision : UInt32
  headerSize : UInt32
  crc32 : UInt32
  reserved : UInt32
  deriving DecidableEq

structure SystemTable where
  hdr : EfiTableHeader
  firmwareVendor : UInt64
  firmwareRevision : UInt32
  /-- The four bytes of padding behind `firmware_revision`, which no store touches. -/
  padding : UInt32
  consoleInHandle : UInt64
  conIn : UInt64
  consoleOutHandle : UInt64
  conOut : UInt64
  standardErrorHandle : UInt64
  stdErr : UInt64
  runtimeServices : UInt64
  bootServices : UInt64
  numberOfTableEntries : UInt64
  configurationTable : UInt64
  deriving DecidableEq

/-- The addresses of the statics that the table points to. -/
structure Statics where
  firmwareVendor : UInt64
  bootServices : UInt64
  runtimeServices : UInt64
  configTable : UInt64
  outProto : UInt64
  inProto : UInt64

def EfiTableHeader.bytes (hdr : EfiTableHeader) : List UInt8 :=
  leBytes 8 hdr.signature.toNat ++ leBytes 4 hdr.revision.toNat ++ leBytes 4 hdr.headerSize.toNat ++
    leBytes 4 hdr.crc32.toNat ++ leBytes 4 hdr.reserved.toNat

namespace SystemTable

/-- The bytes of the `repr(C)` structure. -/
def bytes (st : SystemTable) : List UInt8 :=
  st.hdr.bytes ++ leBytes 8 st.firmwareVendor.toNat ++ leBytes 4 st.firmwareRevision.toNat ++
    leBytes 4 st.padding.toNat ++
    [st.consoleInHandle, st.conIn, st.consoleOutHandle, st.conOut, st.standardErrorHandle, st.stdErr,
      st.runtimeServices, st.bootServices, st.numberOfTableEntries, st.configurationTable].flatMap
      fun w => leBytes 8 w.toNat

/-- `size_of::<SystemTable>()`. -/
def size : Nat := 120

theorem length_bytes (st : SystemTable) : st.bytes.length = size := by
  simp [bytes, EfiTableHeader.bytes, size]

/-- `SYSTEM_TABLE` at boot. -/
def static (padding : UInt32) : SystemTable where
  hdr := {
    signature := 0
    revision := ((2 : UInt32) <<< 16) ||| 100
    headerSize := .ofNat size
    crc32 := 0
    reserved := 0 }
  firmwareVendor := 0
  firmwareRevision := 0x00010000
  padding := padding
  consoleInHandle := 0
  conIn := 0
  consoleOutHandle := 0
  conOut := 0
  standardErrorHandle := 0
  stdErr := 0
  runtimeServices := 0
  bootServices := 0
  numberOfTableEntries := 0
  configurationTable := 0

def withCrc (st : SystemTable) (crc32 : UInt32) : SystemTable := { st with hdr := { st.hdr with crc32 } }

/-- The checksum of the table, with the field itself taken as zero. -/
def checksum (st : SystemTable) : UInt32 := crc32Ieee (st.withCrc 0).bytes

/-- `u64::from_le_bytes(*b"IBI SYST")`. -/
def signature : UInt64 := .ofNat (leNat [0x49, 0x42, 0x49, 0x20, 0x53, 0x59, 0x53, 0x54])

def init (addr : Statics) (st : SystemTable) : SystemTable :=
  let st := { st with
    firmwareVendor := addr.firmwareVendor
    bootServices := addr.bootServices
    runtimeServices := addr.runtimeServices
    hdr := { st.hdr with signature } }
  let st := st.withCrc 0
  st.withCrc (crc32Ieee st.bytes)

end SystemTable

def simpleTextInputProtocolGuid : EfiGuid :=
  ⟨0x387477C1, 0x69C7, 0x11D2, .ofList [0x8E, 0x39, 0x00, 0xA0, 0xC9, 0x69, 0x72, 0x3B]⟩

/-- The statics of the boot services, the system table, and `WAIT_FOR_KEY_EVENT` (0 for null). -/
structure Firmware where
  boot : Boot
  table : SystemTable
  waitForKeyEvent : UInt64

namespace Firmware

variable (image : Image) (addr : Statics) (s : Firmware)

/-- The firmware after `efi::init` and `set_framebuffer_region`. -/
def init (padding : UInt32) (fbBase fbSize : UInt64) (mem : Mem) : Firmware where
  boot := Boot.init image fbBase fbSize mem
  table := (SystemTable.static padding).init addr
  waitForKeyEvent := 0

/-! ## `console::init`

Its framebuffer, UART, keyboard and cursor statics are not part of this state. -/

def createWaitForKey : Firmware :=
  if s.waitForKeyEvent = 0 then
    let (event, events) := Events.create s.boot.events .consoleIn none 0
    { s with boot := { s.boot with events }, waitForKeyEvent := event.getD 0 }
  else
    s

/-- A handle of its own for a console protocol; `none` when the handle table is full. -/
def consoleHandle (guid : EfiGuid) (proto : UInt64) : Option (Option UInt64 × Firmware) := do
  match ← ProtocolDb.findOrCreateHandle s.boot.handles 0 with
  | (none, handles) => return (none, { s with boot := { s.boot with handles } })
  | (some i, handles) =>
    let (_, handles) := ProtocolDb.install handles i guid proto
    return (some (ProtocolDb.handleForIndex i), { s with boot := { s.boot with handles } })

/-- A console handle of the table that is still null gets a handle, stored by `store`. -/
def wireHandle (current : UInt64) (store : UInt64 → SystemTable → SystemTable) (guid : EfiGuid) (proto : UInt64) :
    Option Firmware :=
  if current = 0 then do
    let (handle, s) ← s.consoleHandle guid proto
    match handle with
    | some handle => return { s with table := store handle s.table }
    | none => return s
  else
    some s

def wireConOut : Option Firmware :=
  s.wireHandle s.table.consoleOutHandle (fun consoleOutHandle st => { st with consoleOutHandle })
    simpleTextOutputProtocolGuid addr.outProto

def wireConIn : Option Firmware :=
  s.wireHandle s.table.consoleInHandle (fun consoleInHandle st => { st with consoleInHandle })
    simpleTextInputProtocolGuid addr.inProto

def consoleInit : Option Firmware := do
  let s := s.createWaitForKey
  let s := { s with table := { s.table with conOut := addr.outProto, conIn := addr.inProto } }
  let s ← s.wireConOut addr
  let s ← s.wireConIn addr
  return { s with table := { s.table with
    standardErrorHandle := s.table.consoleOutHandle
    stdErr := s.table.conOut } }

/-! ## Calls -/

/-- What a boot service stores into the table. -/
def publish (call : Call) (reply : Reply) (boot : Boot) (table : SystemTable) : SystemTable :=
  match call with
  | .installConfigurationTable _ _ =>
    if reply.status = some .success then
      { table with
        configurationTable := addr.configTable
        numberOfTableEntries := .ofNat boot.configTable.length }
    else
      table
  | _ => table

def bootCall (call : Call) : Option (Reply × Firmware) := do
  let (reply, boot) ← s.boot.step image call
  return (reply, { s with boot, table := publish addr call reply boot s.table })

inductive Op where
  | consoleInit
  | boot (call : Call)
  /-- Code that writes neither `SYSTEM_TABLE` nor `CONFIG_TABLE`. -/
  | other

inductive Step : Firmware → Op → Firmware → Prop where
  | consoleInit {s s' : Firmware} (h : s.consoleInit addr = some s') : Step s .consoleInit s'
  | boot {s s' : Firmware} {call : Call} {reply : Reply} (h : s.bootCall image addr call = some (reply, s')) :
      Step s (.boot call) s'
  | other {s s' : Firmware} (htable : s'.table = s.table) (hconfig : s'.boot.configTable = s.boot.configTable) :
      Step s .other s'

/-- The operations are made one after the other, from `s` to `s'`, and each of them returns. -/
inductive Run : Firmware → List Op → Firmware → Prop where
  | nil {s : Firmware} : Run s [] s
  | cons {s s' s'' : Firmware} {op : Op} {ops : List Op} (h : Step image addr s op s') (t : Run s' ops s'') :
      Run s (op :: ops) s''

end Firmware

end Ferro
