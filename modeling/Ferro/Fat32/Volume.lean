import Ferro.Base.Chain
import Ferro.Fat32.Model

/-!
# Volumes

What a mounted card means: a table of links (the low 28 bits of FAT copy 0) and the sectors of the data clusters.
The abstract volume forgets where on the card these are; `Fat32.volume` reads it off.
-/

namespace Ferro

/-- The FAT links and the data sectors of a volume. Clusters and sectors it does not have read as zero. -/
@[ext] structure Volume where
  fat : Nat → Nat
  data : Nat × Nat → Sector

/-- The place of a directory entry: cluster, sector in the cluster, index in the sector. -/
structure Loc where
  cluster : Nat
  sector : Nat
  index : Nat
  deriving DecidableEq

namespace Volume

variable (v : Volume)

def setFat (c x : Nat) : Volume := { v with fat := Function.update v.fat c x }

def setData (p : Nat × Nat) (sector : Sector) : Volume := { v with data := Function.update v.data p sector }

/-- The cluster after `c`, or `none` at an end-of-chain mark. -/
def next (c : Nat) : Option Nat := if endOfChain ≤ v.fat c then none else some (v.fat c)

def entry (loc : Loc) : DirEntry := (v.data (loc.cluster, loc.sector)).entry loc.index

end Volume

/-- The entry ends its directory: it and everything behind it is unused. -/
def DirEntry.isEnd (entry : DirEntry) : Bool := entry.nth 0 = 0x00

/-- The entry can be reused: it is deleted or unused. -/
def DirEntry.isFree (entry : DirEntry) : Bool := entry.nth 0 = 0x00 || entry.nth 0 = 0xE5

/-- The entry names a file or a directory. -/
def DirEntry.isLive (entry : DirEntry) : Bool := !entry.isFree && !entry.skipped

/-- Of the given slots of a directory, the live ones before its end. -/
def Volume.live (v : Volume) (locs : List Loc) : List Loc :=
  (locs.takeWhile fun loc => !(v.entry loc).isEnd).filter fun loc => (v.entry loc).isLive

namespace Fat32

variable (fs : Fat32)

/-! ## Where things are on the card -/

/-- The number of entries of one FAT copy. -/
def clusters : Nat := fs.fatSizeSectors.toNat * 128

def fatStart : Nat := fs.partitionStartLba.toNat + fs.reservedSectors.toNat

def dataStart : Nat := fs.fatStart + fs.numFats.toNat * fs.fatSizeSectors.toNat

/-- The sector of FAT copy `k` that holds the entry of cluster `c`. -/
def fatLba (k c : Nat) : Nat := fs.fatStart + k * fs.fatSizeSectors.toNat + c / 128

def dataLba (p : Nat × Nat) : Nat := fs.dataStart + (p.1 - 2) * fs.sectorsPerCluster.toNat + p.2

/-- A cluster with a FAT entry and data sectors. -/
def InRange (c : Nat) : Prop := 2 ≤ c ∧ c < fs.clusters

instance (c : Nat) : Decidable (fs.InRange c) := inferInstanceAs (Decidable (_ ∧ _))

/-- The sectors of the data clusters. -/
def HasSector (p : Nat × Nat) : Prop := fs.InRange p.1 ∧ p.2 < fs.sectorsPerCluster.toNat

instance (p : Nat × Nat) : Decidable (fs.HasSector p) := inferInstanceAs (Decidable (_ ∧ _))

/-- The 32-bit entry of cluster `c` in FAT copy `k`. -/
def rawEntry (d : Disk) (k c : Nat) : Nat := leNat ((d (fs.fatLba k c)).slice (c % 128 * 4) 4)

/-- The volume on a card. -/
def volume (d : Disk) : Volume where
  fat c := if c < fs.clusters then fs.rawEntry d 0 c % 2 ^ 28 else 0
  data p := if fs.HasSector p then d (fs.dataLba p) else Arr.fill 0

/-- No sector number, and no FAT offset it is computed from, overflows a `u32`. -/
structure Geometry : Prop where
  spc_pos : 1 ≤ fs.sectorsPerCluster.toNat
  fats_pos : 1 ≤ fs.numFats.toNat
  sectors_fit : fs.dataStart + (fs.clusters - 2) * fs.sectorsPerCluster.toNat ≤ 2 ^ 32
  offsets_fit : fs.clusters * 4 ≤ 2 ^ 32

/-- `Geometry` for clusters of any size, also of no sectors at all. -/
structure NoOverflow : Prop where
  fats_pos : 1 ≤ fs.numFats.toNat
  sectors_fit : fs.dataStart + (fs.clusters - 2) * fs.sectorsPerCluster.toNat ≤ 2 ^ 32
  offsets_fit : fs.clusters * 4 ≤ 2 ^ 32

/-- Every cluster number can be linked to: none is as large as an end-of-chain mark. -/
def Addressable : Prop := fs.clusters ≤ endOfChain

instance : Decidable fs.Addressable := inferInstanceAs (Decidable (_ ≤ _))

/-! ## The FAT copies -/

/-- All FAT copies are the same bytes. -/
def CopiesAgree (d : Disk) : Prop :=
  ∀ k < fs.numFats.toNat, ∀ j < fs.fatSizeSectors.toNat,
    d (fs.fatStart + k * fs.fatSizeSectors.toNat + j) = d (fs.fatStart + j)

/-- The top four bits of every FAT entry are kept, and so is the agreement of the copies. -/
def Mirrors (d d' : Disk) : Prop :=
  (∀ k < fs.numFats.toNat, ∀ c < fs.clusters, fs.rawEntry d' k c / 2 ^ 28 = fs.rawEntry d k c / 2 ^ 28) ∧
    (fs.CopiesAgree d → fs.CopiesAgree d')

instance : IsPreorder Disk fs.Mirrors where
  refl _ := ⟨fun _ _ _ _ => rfl, id⟩
  trans _ _ _ h h' :=
    ⟨fun k hk c hc => (h'.1 k hk c hc).trans (h.1 k hk c hc), fun ha => h'.2 (h.2 ha)⟩

/-- Only the FAT entries and the data of the clusters in `S` are stored to. A stored entry keeps its top four bits and
has the same link in every copy. -/
structure Stores (S : Nat → Prop) (d d' : Disk) : Prop where
  entry (c) : c < fs.clusters → (∀ k < fs.numFats.toNat, fs.rawEntry d' k c = fs.rawEntry d k c) ∨
    S c ∧ ∀ k < fs.numFats.toNat, fs.rawEntry d' k c = 2 ^ 28 * (fs.rawEntry d k c / 2 ^ 28) + (fs.volume d').fat c
  block (lba) : (∀ k < fs.numFats.toNat, ∀ c < fs.clusters, lba ≠ fs.fatLba k c) →
    (∀ p, S p.1 → fs.HasSector p → lba ≠ fs.dataLba p) → d' lba = d lba

/-- The program ends with `r` and turns the volume `v` into `v'`, and `C` holds of the volume wherever power is
lost. -/
abbrev Runs {α : Type} (C : Volume → Prop) (p : CardM α) (v : Volume) (r : Except Stop α) (v' : Volume) : Prop :=
  Prog.Runs fs.volume fs.Mirrors C p v r v'

/-- `Runs`, and the program stores to the clusters in `S` only. -/
abbrev Within {α : Type} (S : Nat → Prop) (C : Volume → Prop) (p : CardM α) (v : Volume) (r : Except Stop α)
    (v' : Volume) : Prop :=
  Prog.Runs fs.volume (fs.Stores S) C p v r v'

/-! ## Chains and directories -/

/-- Following the FAT from `first` visits the clusters of `l`, all of them in range, and ends. -/
structure ChainAt (v : Volume) (first : Nat) (l : List Nat) : Prop where
  chain : Chain v.next first l
  inRange : ∀ c ∈ l, fs.InRange c

/-- The sectors of the clusters of a chain, in order. -/
def sectors (l : List Nat) : List (Nat × Nat) :=
  l.flatMap fun c => (List.range fs.sectorsPerCluster.toNat).map fun s => (c, s)

/-- The directory slots of the clusters of a chain, in order. -/
def slots (l : List Nat) : List Loc :=
  (fs.sectors l).flatMap fun p => (List.range 16).map fun i => ⟨p.1, p.2, i⟩

/-- The slots of the files and subdirectories listed in a directory. -/
def liveSlots (v : Volume) (l : List Nat) : List Loc := v.live (fs.slots l)

/-- The bytes in the clusters of a chain. -/
def content (v : Volume) (l : List Nat) : List UInt8 := (fs.sectors l).flatMap fun p => (v.data p).toList

/-- The free clusters from `start` on, in increasing order. -/
def freeFrom (v : Volume) (start : Nat) : List Nat :=
  (List.range' start (fs.clusters - start)).filter fun c => v.fat c = 0

def freeList (v : Volume) : List Nat := fs.freeFrom v 2

end Fat32

end Ferro
