import Ferro.Persist.Model
import Ferro.Variables.Spec

/-!
# What changes the variables and the card

The variable services of `efi/runtime_services.rs`, the settings of `settings.rs`, `persist::autosave`, and the menu
items of `ui.rs` and the protocols that write to the card. A call that ends in a panic or an endless loop returns
`none`.
-/

namespace Ferro

/-- `EFI_VARIABLE_NON_VOLATILE`. -/
def nonVolatile : UInt32 := 1

/-- The variable store, `SD_CONTEXT`, and the card. The handle to the card is not modelled, there is only one. -/
structure Session where
  vars : Store
  context : Option Fat32
  card : Disk

/-- The result of a call that returns. -/
def PersistStop.returned {α : Type} : Except PersistStop α → Option (Except PersistError α)
  | .ok a => some (.ok a)
  | .error (.err e) => some (.error e)
  | .error .panic => none
  | .error .hang => none

namespace Session

/-- The firmware after power-on, with the card as it is. -/
def boot (card : Disk) : Session := ⟨Variables.empty, none, card⟩

def autosave (s : Session) : Option (Option (Except PersistError Nat) × Session) :=
  match s.context with
  | none => some (none, s)
  | some fs =>
    let (r, card) := (Persist.save fs s.vars).run s.card
    (PersistStop.returned r).map fun r => (some r, { s with card })

/-! ## Runtime services -/

/-- The status of `get_variable` for an error. -/
def getStatus : VarError → EfiStatus
  | .notFound => .notFound
  | .invalidParameter => .invalidParameter
  | .bufferTooSmall _ => .bufferTooSmall
  | .outOfResources => .outOfResources

/-- The status, and what `attributes`, `data_size` and `data` point to afterwards. -/
def getVariable (vars : Store) (variableName : Option Ptr16) (vendorGuid : Option EfiGuid)
    (attributes : Option UInt32) (dataSize : Option Nat) (data : Option Ptr8) :
    EfiStatus × Option UInt32 × Option Nat × Option Ptr8 :=
  match variableName, vendorGuid, dataSize with
  | some variableName, some guid, some capacity =>
    let (r, buf) := Variables.get vars variableName guid (rawParts capacity data)
    let data := data.map fun ptr i => buf.getD i (ptr i)
    match r with
    | .ok (attrs, len) => (.success, attributes.map fun _ => attrs, some len, data)
    | .error (.bufferTooSmall needed) => (.bufferTooSmall, attributes, some needed, data)
    | .error e => (getStatus e, attributes, dataSize, data)
  | _, _, _ => (.invalidParameter, attributes, dataSize, data)

/-- The status, and what `variable_name_size`, `variable_name` and `vendor_guid` point to afterwards. The errors have the
statuses of `get_variable`. -/
def getNextVariableName (vars : Store) (variableNameSize : Option Nat) (variableName : Option Ptr16)
    (vendorGuid : Option EfiGuid) : EfiStatus × Option Nat × Option Ptr16 × Option EfiGuid :=
  match variableNameSize, variableName, vendorGuid with
  | some size, some name, some guid =>
    let capacityUnits := size / 2
    match Variables.getNext vars name guid capacityUnits with
    | .ok (units, nextGuid) =>
      (.success, some (units.length * 2), some fun i => units.getD i (name i), some nextGuid)
    | .error (.bufferTooSmall needed) => (.bufferTooSmall, some (needed * 2), variableName, vendorGuid)
    | .error e => (getStatus e, variableNameSize, variableName, vendorGuid)
  | _, _, _ => (.invalidParameter, variableNameSize, variableName, vendorGuid)

/-- The status of `set_variable` for an error. -/
def setStatus : VarError → EfiStatus
  | .notFound => .notFound
  | .invalidParameter => .invalidParameter
  | .outOfResources => .outOfResources
  | .bufferTooSmall _ => .invalidParameter

def setVariable (s : Session) (variableName : Option Ptr16) (vendorGuid : Option EfiGuid) (attributes : UInt32)
    (dataSize : Nat) (data : Option Ptr8) : Option (EfiStatus × Session) :=
  match variableName, vendorGuid with
  | some variableName, some guid =>
    if 0 < dataSize ∧ data.isNone then
      some (.invalidParameter, s)
    else
      match Variables.set s.vars variableName guid attributes (rawParts dataSize data) with
      | (.ok (), vars) =>
        let s := { s with vars }
        if attributes &&& nonVolatile ≠ 0 then
          -- what `autosave` returns is dropped
          s.autosave.map fun (_, s) => (.success, s)
        else
          some (.success, s)
      | (.error e, vars) => some (setStatus e, { s with vars })
  | _, _ => some (.invalidParameter, s)

/-! ## Settings -/

/-- `FERRO_SETTINGS_GUID`, whose last bytes are `b"ferro-su"`. -/
def ferroSettingsGuid : EfiGuid :=
  ⟨0x46455252, 0x4F00, 0x0001, .ofList [0x66, 0x65, 0x72, 0x72, 0x6F, 0x2D, 0x73, 0x75]⟩

/-- `ATTR`. -/
def settingsAttr : UInt32 := 0x7

def nameUnits (name : String) : Ptr16 := fun i => (name.toList.map fun c => UInt16.ofNat c.toNat).getD i 0

def setByte (s : Session) (name : String) (value : UInt8) : Option Session :=
  let (_, vars) := Variables.set s.vars (nameUnits name) ferroSettingsGuid settingsAttr [value]
  ({ s with vars } : Session).autosave.map Prod.snd

def setBool (s : Session) (name : String) (value : Bool) : Option Session := s.setByte name value.toUInt8

inductive Theme where
  | amber
  | cyan
  | green

def Theme.toByte : Theme → UInt8
  | amber => 0
  | cyan => 1
  | green => 2

def setVerboseBoot (s : Session) (v : Bool) : Option Session := s.setBool "VerboseBoot" v

def setTheme (s : Session) (t : Theme) : Option Session := s.setByte "AccentTheme" t.toByte

def setUsbEnabled (s : Session) (v : Bool) : Option Session := s.setBool "UsbHidEnabled" v

/-! ## The menu and the protocols -/

/-- Boot from SD, up to the variables, once the card is mounted. -/
def bootFromSd (s : Session) (fs : Fat32) : Option Session :=
  let (r, card) := (Persist.load fs s.vars).run s.card
  match PersistStop.returned r with
  | none => none
  | some (.ok (_, vars)) => some ⟨vars, some fs, card⟩
  | some (.error _) => some { s with context := some fs, card }

/-- Save variables to SD, once the card is mounted. -/
def saveVariablesToSd (s : Session) (fs : Fat32) : Option Session :=
  let (r, card) := (Persist.save fs s.vars).run s.card
  (PersistStop.returned r).map fun _ => { s with context := some fs, card }

/-- A `write_file` of `efi/file_protocol.rs`. -/
def writeFile (s : Session) (name : Name) (data : List UInt8) : Option Session :=
  match s.context with
  | none => some s
  | some fs =>
    let (r, card) := (fs.writeFile name data).run s.card
    (PersistStop.returned (r.mapError PersistStop.ofStop)).map fun _ => { s with card }

/-- A `write_block` of `efi/block_io.rs`. -/
def blockWrite (s : Session) (lba : Nat) (sector : Sector) : Session :=
  match s.context with
  | none => s
  | some _ => { s with card := Function.update s.card lba sector }

/-! ## Runs -/

inductive Action where
  | setVariable (variableName : Option CStr16) (vendorGuid : Option EfiGuid) (attributes : UInt32) (dataSize : Nat)
      (data : Option Ptr8)
  | setVerboseBoot (v : Bool)
  | setTheme (t : Theme)
  | setUsbEnabled (v : Bool)
  | bootFromSd (fs : Fat32)
  | saveVariablesToSd (fs : Fat32)
  | writeFile (name : Name) (data : List UInt8)
  | blockWrite (lba : Nat) (sector : Sector)

/-- One action. The menu items carry what mounting the card gives. -/
def step (s : Session) : Action → Option Session
  | .setVariable variableName vendorGuid attributes dataSize data =>
    (s.setVariable (variableName.map CStr16.mem) vendorGuid attributes dataSize data).map Prod.snd
  | .setVerboseBoot v => s.setVerboseBoot v
  | .setTheme t => s.setTheme t
  | .setUsbEnabled v => s.setUsbEnabled v
  | .bootFromSd fs => s.bootFromSd fs
  | .saveVariablesToSd fs => s.saveVariablesToSd fs
  | .writeFile name data => s.writeFile name data
  | .blockWrite lba sector => some (s.blockWrite lba sector)

/-- A run of actions that all meet `P`. -/
inductive Run (P : Session → Action → Prop) : Session → Session → Prop where
  | start {s : Session} : Run P s s
  | action {s s₁ s₂ : Session} {a : Action} (h : Run P s s₁) (hp : P s₁ a) (hs : step s₁ a = some s₂) : Run P s s₂

end Session

end Ferro
