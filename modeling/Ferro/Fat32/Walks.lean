import Ferro.Fat32.Lemmas.Walks
import Ferro.Fat32.Theorems

/-!
# Chain walks on any FAT

Each walk stops at an end-of-chain mark only; `free_chain_from` and `resize_chain` also stop at a link below 2. What
a walk needs of the card is therefore that the links it takes are in range and do not lead back.
-/

namespace Ferro

namespace Fat32

/-- The calls that follow the links of the FAT through `cluster_to_lba`. The last one is the directory search of
`write_file`. -/
inductive ChainCall where
  | listDir (dirCluster : UInt32) (cap : Nat)
  | findInDir (dirCluster : UInt32) (name : Name)
  | resolveFrom (startCluster : UInt32) (path : List UInt8)
  | readFrom (firstCluster fileSize : UInt32) (outLen : Nat)
  | writeSearch (name : Name)

variable (fs : Fat32) (d : Disk)

namespace ChainCall

/-- The call returns, with a value or an error. -/
def Ends : ChainCall → Prop
  | listDir dirCluster cap => ((fs.listDir dirCluster.toNat cap).run d).1 ≠ .error .hang
  | findInDir dirCluster name => ((fs.findInDir dirCluster.toNat name).run d).1 ≠ .error .hang
  | resolveFrom startCluster path => ((fs.resolveFrom startCluster.toNat path).run d).1 ≠ .error .hang
  | readFrom firstCluster fileSize outLen =>
    ((fs.readFrom firstCluster.toNat fileSize.toNat outLen).run d).1 ≠ .error .hang
  | writeSearch name => ((fs.searchLoop name loopLimit fs.rootCluster.toNat {}).run d).1 ≠ .error .hang

/-- The clusters that the call passes to `cluster_to_lba`. -/
def visited : ChainCall → List Nat
  | listDir dirCluster cap => ((fs.listWalk d cap).run loopLimit dirCluster.toNat []).1
  | findInDir dirCluster name => ((fs.findWalk d name).run loopLimit dirCluster.toNat ()).1
  | resolveFrom startCluster path => fs.resolveVisited d (components path) startCluster.toNat
  | readFrom firstCluster fileSize outLen => fs.readVisited d firstCluster.toNat (min fileSize.toNat outLen)
  | writeSearch name => ((fs.searchWalk d name).run loopLimit fs.rootCluster.toNat {}).1

def Safe (call : ChainCall) : Prop := call.Ends fs d ∧ ∀ c ∈ call.visited fs d, fs.InRange c

/-- The links that the call takes stay in range. Those of a directory search do not lead back either; `read_from` takes
no more links than it needs clusters. -/
def Proper : ChainCall → Prop
  | listDir dirCluster _ => Straight (fs.dirLink d) fs.InRange dirCluster.toNat
  | findInDir dirCluster name => Straight (fs.findLink d name) fs.InRange dirCluster.toNat
  | resolveFrom startCluster path => fs.PathStraight d fs.InRange (components path) startCluster.toNat
  | readFrom firstCluster fileSize outLen => firstCluster.toNat ≠ 0 →
    ∀ i c, i * fs.clusterSizeBytes < min fileSize.toNat outLen → follow (fs.nextAt d) i firstCluster.toNat = some c →
      fs.InRange c
  | writeSearch _ => Straight (fs.dirLink d) fs.InRange fs.rootCluster.toNat

theorem safe_iff (hspc : 1 ≤ fs.sectorsPerCluster.toNat) (call : ChainCall) : call.Safe fs d ↔ call.Proper fs d := by
  cases call with
  | listDir dirCluster cap => exact fs.listDir_iff d _ cap
  | findInDir dirCluster name => exact fs.findInDir_iff d _ name
  | resolveFrom startCluster path => exact fs.resolveLoop_iff d _ _ _
  | readFrom firstCluster fileSize outLen =>
      obtain ⟨hends, hmem⟩ := fs.readFrom_visits d hspc firstCluster.toNat fileSize.toNat outLen fileSize.toNat_lt
      constructor
      · intro h hfirst i c hi hc
        exact h.2 c ((hmem c).mpr ⟨hfirst, i, hi, hc⟩)
      · intro h
        refine ⟨hends, fun c hc => ?_⟩
        obtain ⟨hfirst, i, hi, hf⟩ := (hmem c).mp hc
        exact h hfirst i c hi hf
  | writeSearch name => exact fs.search_iff d name _

end ChainCall

/-! ## A small directory

The root directory of `smallFs` is cluster 2 in block 3, and its FAT is block 1. -/

/-- The root directory holds deleted entries only, and its FAT entry is the given one. -/
def linkedCard (link : List UInt8) : Disk := fun lba =>
  if lba = 1 then (Arr.fill 0).put 8 link else if lba = 3 then .fill 0xE5 else .fill 0

def endCard : Disk := linkedCard [0xFF, 0xFF, 0xFF, 0x0F]

set_option maxRecDepth 8000 in
theorem safe_endCard : 1 ≤ smallFs.sectorsPerCluster.toNat ∧ (ChainCall.listDir 2 16).Safe smallFs endCard := by
  have hlink : smallFs.dirLink endCard 2 = none := by rfl
  refine ⟨by decide, (ChainCall.safe_iff smallFs endCard (by decide) _).mpr ?_⟩
  exact (Chain.last hlink).straight (by decide)

def zeroCard : Disk := linkedCard [0, 0, 0, 0]

def loopCard : Disk := linkedCard [2, 0, 0, 0]

set_option maxRecDepth 8000 in
/-- A link to cluster 0 is followed to cluster 0, and the listing of a cluster that links to itself never ends. -/
theorem not_safe_zeroCard :
    (ChainCall.listDir 2 16).visited smallFs zeroCard = [2, 0] ∧ ¬ (ChainCall.listDir 2 16).Safe smallFs zeroCard ∧
      ¬ (ChainCall.listDir 2 16).Ends smallFs loopCard := by
  have hvisited : (ChainCall.listDir 2 16).visited smallFs zeroCard = [2, 0] := by rfl
  have hlink : smallFs.dirLink loopCard 2 = some 2 := by rfl
  refine ⟨hvisited, fun h => ?_, fun h => ?_⟩
  · have h0 := h.2 0 (by rw [hvisited]; simp)
    exact absurd h0 (by decide)
  · have hstraight := (smallFs.listDir_iff loopCard 2 16).mp ⟨h, fun _ _ => trivial⟩
    exact (hstraight 2 .refl).2 (.single hlink)

end Fat32

end Ferro
