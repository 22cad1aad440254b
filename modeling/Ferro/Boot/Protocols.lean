import Ferro.Base.Slots
import Ferro.Types

/-!
# The handle and protocol database (`efi/protocol_db.rs`)

A handle is a table index plus one. An index past the table panics, which is `none`.
-/

namespace Ferro

def maxHandles : Nat := 32

def maxProtocolsPerHandle : Nat := 8

structure ProtocolEntry where
  guid : EfiGuid
  interface : UInt64
  deriving DecidableEq

structure HandleEntry where
  inUse : Bool
  protocols : Arr (Option ProtocolEntry) maxProtocolsPerHandle

def emptyHandle : HandleEntry := ⟨false, .fill none⟩

/-- The contents of `HANDLES`. -/
abbrev Handles := Arr HandleEntry maxHandles

/-- A slot that holds `guid`. -/
def holds (guid : EfiGuid) : Option ProtocolEntry → Bool
  | some p => p.guid = guid
  | none => false

/-- The interface of the first entry for `guid`. -/
def HandleEntry.interface? (h : HandleEntry) (guid : EfiGuid) : Option UInt64 :=
  (h.protocols.toList.find? (holds guid)).bind fun slot => slot.map ProtocolEntry.interface

namespace ProtocolDb

/-- `HANDLES` at boot. -/
def empty : Handles := .fill emptyHandle

def handleToIndex (handle : UInt64) : Option Nat := if handle = 0 then none else some (handle.toNat - 1)

def indexToHandle (index : Nat) : UInt64 := .ofNat (index + 1)

/-- The bounds check of `(*handles)[i]`. -/
def checked (i : Nat) : Option (Fin maxHandles) := if h : i < maxHandles then some ⟨i, h⟩ else none

/-- `(*handles)[i].in_use.then_some(i)`. -/
def live (hs : Handles) (i : Nat) : Option (Option (Fin maxHandles)) :=
  (checked i).map fun i => if (hs.get i).inUse then some i else none

def indexOf (hs : Handles) (handle : UInt64) : Option (Option (Fin maxHandles)) :=
  match handleToIndex handle with
  | none => some none
  | some i => live hs i

def findOrCreateHandle (hs : Handles) (existing : UInt64) : Option (Option (Fin maxHandles) × Handles) :=
  match handleToIndex existing with
  | some i => (live hs i).map fun r => (r, hs)
  | none =>
    match hs.find? fun h => !h.inUse with
    | some i => some (some i, hs.set i { emptyHandle with inUse := true })
    | none => some (none, hs)

def handleForIndex (index : Fin maxHandles) : UInt64 := indexToHandle index

def install (hs : Handles) (index : Fin maxHandles) (guid : EfiGuid) (interface : UInt64) : Bool × Handles :=
  let h := hs.get index
  match h.protocols.find? Option.isNone with
  | some j => (true, hs.set index { h with protocols := h.protocols.set j (some ⟨guid, interface⟩) })
  | none => (false, hs)

def locate (hs : Handles) (guid : EfiGuid) : Option UInt64 :=
  hs.toList.findSome? fun h => if h.inUse then h.interface? guid else none

def handleProtocol (hs : Handles) (handle : UInt64) (guid : EfiGuid) : Option (Option UInt64) :=
  match handleToIndex handle with
  | none => some none
  | some i => (live hs i).map fun r => r.bind fun i => (hs.get i).interface? guid

def uninstall (hs : Handles) (index : Fin maxHandles) (guid : EfiGuid) : Bool × Handles :=
  let h := hs.get index
  match h.protocols.find? (holds guid) with
  | some j => (true, hs.set index { h with protocols := h.protocols.set j none })
  | none => (false, hs)

/-- The handles that `handles_with` counts. It writes them to the front of `out`, as many as `out` has room for. -/
def handlesWith (hs : Handles) (guid : EfiGuid) : List UInt64 :=
  ((List.finRange maxHandles).filter fun i =>
    (hs.get i).inUse && (hs.get i).protocols.toList.any (holds guid)).map fun i => handleForIndex i

/-- The GUIDs that `protocols_on_handle` counts and writes to `out`, which has room for all a handle can have. -/
def protocolsOnHandle (hs : Handles) (handle : UInt64) : Option (Option (List EfiGuid)) :=
  match handleToIndex handle with
  | none => some none
  | some i =>
    (live hs i).map fun r => r.map fun i => (hs.get i).protocols.toList.filterMap fun slot => slot.map ProtocolEntry.guid

end ProtocolDb

end Ferro
