import Ferro.Base.Arr

/-!
# The UEFI types (`efi/types.rs`)

A pointer to data of the caller is modelled by what it points to, and a null pointer by `none`.
-/

namespace Ferro

/-- The statuses the firmware's own functions return. -/
inductive EfiStatus where
  | success
  | invalidParameter
  | unsupported
  | bufferTooSmall
  | notReady
  | deviceError
  | writeProtected
  | outOfResources
  | notFound
  | warnDeleteFailure
  deriving DecidableEq

structure EfiGuid where
  data1 : UInt32
  data2 : UInt16
  data3 : UInt16
  data4 : Bytes 8
  deriving DecidableEq

/-- The bytes of a GUID, in memory and in a saved variable. -/
def guidBytes (guid : EfiGuid) : List UInt8 :=
  leBytes 4 guid.data1.toNat ++ leBytes 2 guid.data2.toNat ++ leBytes 2 guid.data3.toNat ++ guid.data4.toList

/-- A pointer to bytes: the bytes at the pointer and behind it. -/
abbrev Ptr8 := Nat → UInt8

/-- A `*const u16`: the units at the pointer and behind it. -/
abbrev Ptr16 := Nat → UInt16

/-- Whether a pointer that a call only writes through is not null. -/
abbrev OutPtr := Bool

/-- `from_raw_parts(ptr, len)`, and no bytes at a null pointer. -/
def rawParts (len : Nat) : Option Ptr8 → List UInt8
  | none => []
  | some ptr => (List.range len).map ptr

end Ferro
