import Ferro.Base.Traced
import Ferro.Usb.Transfer

/-!
# Finding a keyboard (`hid.rs`, `usb.rs`)

A control request goes to an address, and every device at that address hears it. A device is at address 0 from the reset
of its port until it answers SET_ADDRESS.
-/

namespace Ferro.Usb

inductive Speed where
  | high
  | full
  | low
  deriving DecidableEq

inductive HidError where
  | usb (e : UsbError)
  | noKeyboardFound
  deriving DecidableEq

structure Request where
  requestType : UInt8
  request : UInt8
  value : UInt16
  index : UInt16
  length : Nat
  deriving DecidableEq

def reqGetStatus : UInt8 := 0x00

def reqClearFeature : UInt8 := 0x01

def reqSetFeature : UInt8 := 0x03

def reqSetAddress : UInt8 := 0x05

def reqGetDescriptor : UInt8 := 0x06

def reqSetConfiguration : UInt8 := 0x09

def descTypeDevice : UInt16 := 1

def descTypeConfiguration : UInt16 := 2

def descTypeHub : UInt16 := 0x29

def portFeatureConnection : UInt16 := 0

def portFeatureReset : UInt16 := 4

def portFeaturePower : UInt16 := 8

def portFeatureCConnection : UInt16 := 16

def portFeatureCReset : UInt16 := 20

/-! ## The bus -/

/-- A request, with the address it went to and the devices that answered. Device 0 is at the root port, the others are
at the hub's ports by number. -/
structure Exchange where
  addr : UInt32
  request : Request
  answered : List Nat

/-- The devices: which ports of the hub have one, and what each answers after the requests so far. Where several answer,
the host hears one of them. -/
structure Population where
  attached : Nat → Bool
  answers : Nat → List Exchange → Request → Option (List UInt8)
  heard : List Exchange → Nat
  failure : List Exchange → UsbError

/-- The address of each device on the bus, and the requests so far. -/
structure Bus where
  address : Nat → Option UInt32
  trace : List Exchange

/-- The bus behind the reset of the root port. -/
def Bus.start : Bus := ⟨fun d => if d = 0 then some 0 else none, []⟩

abbrev Driver := Traced Bus HidError

def Request.IsSetAddress (req : Request) : Prop := req.requestType = 0x00 ∧ req.request = reqSetAddress

def Request.IsPortReset (req : Request) : Prop :=
  req.requestType = 0x23 ∧ req.request = reqSetFeature ∧ req.value = portFeatureReset

instance (req : Request) : Decidable req.IsSetAddress := inferInstanceAs (Decidable (_ ∧ _))

instance (req : Request) : Decidable req.IsPortReset := inferInstanceAs (Decidable (_ ∧ _))

/-- The devices that answer a request. -/
def Bus.answering (pop : Population) (b : Bus) (addr : UInt32) (req : Request) : List Nat :=
  (List.range 256).filter fun d => b.address d = some addr ∧ (pop.answers d b.trace req).isSome

/-- The addresses after a request that the given devices answer. -/
def Bus.addressAfter (pop : Population) (b : Bus) (req : Request) (ds : List Nat) : Nat → Option UInt32 :=
  if req.IsSetAddress then
    fun d => if d ∈ ds then some req.value.toUInt32 else b.address d
  else if req.IsPortReset ∧ 0 ∈ ds ∧ pop.attached req.index.toNat then
    Function.update b.address req.index.toNat (some 0)
  else
    b.address

section

variable (pop : Population)

/-- `control_transfer`, with the bytes that the device returns. -/
def controlTransfer (dev : Device) (requestType request : UInt8) (value index : UInt16) (length : Nat) :
    Driver (List UInt8) := ExceptT.mk fun b =>
  let req := ⟨requestType, request, value, index, length⟩
  let ds := b.answering pop dev.addr req
  let b' : Bus := ⟨b.addressAfter pop req ds, b.trace ++ [⟨dev.addr, req, ds⟩]⟩
  match ds[pop.heard b.trace % ds.length]? with
  | none => some (.error (.usb (pop.failure b.trace)), b')
  | some d => some (.ok (((pop.answers d b.trace req).getD []).take length), b')

def getDeviceDescriptor (dev : Device) (length : Nat) : Driver (List UInt8) :=
  controlTransfer pop dev 0x80 reqGetDescriptor (descTypeDevice <<< 8) 0 length

def getConfigurationDescriptor (dev : Device) (length : Nat) : Driver (List UInt8) :=
  controlTransfer pop dev 0x80 reqGetDescriptor (descTypeConfiguration <<< 8) 0 length

/-- The device with its new address. -/
def setAddress (dev : Device) (newAddr : UInt32) : Driver Device := do
  let _ ← controlTransfer pop dev 0x00 reqSetAddress newAddr.toUInt16 0 0
  return { dev with addr := newAddr }

def setConfiguration (dev : Device) (config : UInt8) : Driver Unit := do
  let _ ← controlTransfer pop dev 0x00 reqSetConfiguration config.toUInt16 0 0

def hubGetDescriptor (dev : Device) (length : Nat) : Driver (List UInt8) :=
  controlTransfer pop dev 0xA0 reqGetDescriptor (descTypeHub <<< 8) 0 length

def hubSetPortFeature (dev : Device) (port feature : UInt16) : Driver Unit := do
  let _ ← controlTransfer pop dev 0x23 reqSetFeature feature port 0

def hubClearPortFeature (dev : Device) (port feature : UInt16) : Driver Unit := do
  let _ ← controlTransfer pop dev 0x23 reqClearFeature feature port 0

/-- The bytes of a buffer of zeros behind a transfer into it. -/
def fill (length : Nat) (bytes : List UInt8) : List UInt8 := bytes ++ List.replicate (length - bytes.length) 0

/-- `u16::from_le_bytes` of two bytes of a buffer. -/
def le16At (bytes : List UInt8) (i : Nat) : UInt16 := (bytes.getD i 0).toUInt16 ||| ((bytes.getD (i + 1) 0).toUInt16 <<< 8)

/-- `wPortStatus`. -/
def hubGetPortStatus (dev : Device) (port : UInt16) : Driver UInt16 := do
  let bytes ← controlTransfer pop dev 0xA3 reqGetStatus 0 port 4
  return le16At (fill 4 bytes) 0

def hubPowerAndResetPort (dev : Device) (port : UInt16) : Driver (Option Speed) := do
  hubSetPortFeature pop dev port portFeaturePower
  let portStatus ← hubGetPortStatus pop dev port
  if portStatus &&& ((1 : UInt16) <<< portFeatureConnection) = 0 then
    return none
  else
    hubSetPortFeature pop dev port portFeatureReset
    let _ ← (hubClearPortFeature pop dev port portFeatureCReset).attempt
    let _ ← (hubClearPortFeature pop dev port portFeatureCConnection).attempt
    let portStatus ← hubGetPortStatus pop dev port
    return some (if portStatus &&& ((1 : UInt16) <<< 9) ≠ 0 then .low
      else if portStatus &&& ((1 : UInt16) <<< 10) ≠ 0 then .high
      else .full)

/-! ## The keyboard -/

structure Keyboard where
  dev : Device
  epNum : UInt32
  epMps : Nat
  prevReport : Bytes 8

/-- The loop of `find_hid_keyboard_endpoint` at `i`. A round goes on by at least one byte. -/
def findEndpointLoop (cfg : List UInt8) : (fuel i : Nat) → (inKeyboardInterface : Bool) → Option (UInt32 × Nat)
  | 0, _, _ => none
  | fuel + 1, i, inKeyboardInterface =>
    let len := (cfg.getD i 0).toNat
    if cfg.length < i + 2 ∨ len = 0 ∨ cfg.length < i + len then
      none
    else
      let descType := cfg.getD (i + 1) 0
      if descType = 4 ∧ 9 ≤ len then
        findEndpointLoop cfg fuel (i + len) (cfg.getD (i + 5) 0 = 3 ∧ cfg.getD (i + 6) 0 = 1 ∧ cfg.getD (i + 7) 0 = 1)
      else if descType = 5 ∧ 7 ≤ len ∧ inKeyboardInterface ∧ cfg.getD (i + 2) 0 &&& 0x80 ≠ 0 then
        some ((cfg.getD (i + 2) 0 &&& 0x0F).toUInt32, (le16At cfg (i + 4)).toNat)
      else
        findEndpointLoop cfg fuel (i + len) inKeyboardInterface

def findHidKeyboardEndpoint (cfg : List UInt8) : Option (UInt32 × Nat) := findEndpointLoop cfg cfg.length 0 false

def enumerateAsKeyboard (speed : Speed) (addr : UInt32) : Driver Keyboard := do
  let dev : Device := ⟨0, 8, speed = .low⟩
  let desc ← getDeviceDescriptor pop dev 18
  let dev ← setAddress pop dev addr
  let dev := { dev with maxPacketSize := max ((fill 18 desc).getD 7 0).toUInt32 8 }
  let cfgHdr ← getConfigurationDescriptor pop dev 9
  let totalLen := min (max (le16At (fill 9 cfgHdr) 2).toNat 9) 64
  let configValue := (fill 9 cfgHdr).getD 5 0
  let cfg ← getConfigurationDescriptor pop dev totalLen
  match findHidKeyboardEndpoint cfg with
  | none => throw .noKeyboardFound
  | some (epNum, epMps) =>
    setConfiguration pop dev configValue
    return ⟨dev, epNum, min epMps 8, .fill 0⟩

/-- The loop of `find_keyboard` over the ports from `port`, with `n` to go. -/
def findOnPorts (hub : Device) : (n port : Nat) → Driver Keyboard
  | 0, _ => throw .noKeyboardFound
  | n + 1, port => do
    match ← (hubPowerAndResetPort pop hub port.toUInt16).attempt with
    | .ok (some speed) =>
      match ← (enumerateAsKeyboard pop speed 2).attempt with
      | .ok kbd => return kbd
      | .error _ => findOnPorts hub n (port + 1)
    | _ => findOnPorts hub n (port + 1)

def findKeyboard (rootSpeed : Speed) : Driver Keyboard := do
  let root : Device := ⟨0, 8, rootSpeed = .low⟩
  let desc ← getDeviceDescriptor pop root 18
  if (fill 18 desc).getD 4 0 = 0x09 then
    let hub : Device := ⟨0, max ((fill 18 desc).getD 7 0).toUInt32 8, root.lowSpeed⟩
    let hub ← setAddress pop hub 1
    let hubDesc ← hubGetDescriptor pop hub 9
    findOnPorts pop hub ((fill 9 hubDesc).getD 2 0).toNat 1
  else
    enumerateAsKeyboard pop rootSpeed 1

end

/-! ## Addresses -/

/-- The addresses that were given, with the devices that took them. -/
def given (trace : List Exchange) : List (Nat × UInt32) :=
  (trace.filter fun x => x.request.IsSetAddress).flatMap fun x => x.answered.map fun d => (d, x.request.value.toUInt32)

/-- The devices behind the hub that answered SET_ADDRESS. -/
def acknowledging (trace : List Exchange) : List Nat :=
  ((trace.filter fun x => x.request.IsSetAddress).flatMap Exchange.answered).filter (· ≠ 0)

/-- Distinct devices took distinct addresses. -/
def Distinct (trace : List Exchange) : Prop := ∀ x ∈ given trace, ∀ y ∈ given trace, x.1 ≠ y.1 → x.2 ≠ y.2

/-- One device alone is at the address. -/
def Alone (b : Bus) (addr : UInt32) : Prop := ∃ d, ∀ e, b.address e = some addr ↔ e = d

end Ferro.Usb
