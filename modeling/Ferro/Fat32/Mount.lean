import Ferro.Fat32.Lemmas.Read

/-!
# What `mount` checks

The geometry comes from an untrusted boot sector. `mount` checks two signatures, the sector size and that the FAT is
not empty; the rest of the geometry goes into unchecked `u32` arithmetic.
-/

namespace Ferro

/-! ## Arithmetic that can fail

The operations of the source in a build that checks them: `none` where `u32` overflows or a division is by zero. -/

def add32? (a b : Nat) : Option Nat := if a + b < 2 ^ 32 then some (a + b) else none

def sub32? (a b : Nat) : Option Nat := if b ≤ a then some (a - b) else none

def mul32? (a b : Nat) : Option Nat := if a * b < 2 ^ 32 then some (a * b) else none

def divCeil? (a b : Nat) : Option Nat := if b = 0 then none else some ((a + b - 1) / b)

theorem add32?_eq_some {a b c : Nat} : add32? a b = some c ↔ a + b < 2 ^ 32 ∧ a + b = c := by
  rw [add32?, Option.ite_none_right_eq_some, Option.some_inj]

theorem sub32?_eq_some {a b c : Nat} : sub32? a b = some c ↔ b ≤ a ∧ a - b = c := by
  rw [sub32?, Option.ite_none_right_eq_some, Option.some_inj]

theorem mul32?_eq_some {a b c : Nat} : mul32? a b = some c ↔ a * b < 2 ^ 32 ∧ a * b = c := by
  rw [mul32?, Option.ite_none_right_eq_some, Option.some_inj]

namespace Fat32

variable (fs : Fat32)

def firstDataSector? : Option Nat := do
  let fatStart ← add32? fs.partitionStartLba.toNat fs.reservedSectors.toNat
  let fats ← mul32? fs.numFats.toNat fs.fatSizeSectors.toNat
  add32? fatStart fats

/-- The offset of a cluster from the first data sector, as `cluster_to_lba` computes it. -/
def clusterOffset? (cluster : Nat) : Option Nat := do
  let index ← sub32? cluster 2
  mul32? index fs.sectorsPerCluster.toNat

/-- What `write_file`, `list_dir` and `find_in_dir` rely on in the root directory. -/
structure Sound : Prop where
  spc_pos : 1 ≤ fs.sectorsPerCluster.toNat
  fats_pos : 1 ≤ fs.numFats.toNat
  root_le : 2 ≤ fs.rootCluster.toNat
  dataSector_fits : fs.firstDataSector?.isSome
  division : ∀ data : List UInt8, (divCeil? data.length fs.clusterSizeBytes).isSome
  rootOffset : (fs.clusterOffset? fs.rootCluster.toNat).isSome

theorem firstDataSector?_eq_some {n : Nat} : fs.firstDataSector? = some n ↔
    fs.partitionStartLba.toNat + fs.reservedSectors.toNat + fs.numFats.toNat * fs.fatSizeSectors.toNat < 2 ^ 32 ∧
      fs.firstDataSector = n := by
  simp only [firstDataSector?, Option.bind_eq_bind, Option.bind_eq_some_iff, add32?_eq_some, mul32?_eq_some,
    firstDataSector, wrap32]
  constructor
  · rintro ⟨_, ⟨_, rfl⟩, _, ⟨_, rfl⟩, hlt, rfl⟩
    exact ⟨hlt, Nat.mod_eq_of_lt hlt⟩
  · rintro ⟨hlt, rfl⟩
    exact ⟨_, ⟨by omega, rfl⟩, _, ⟨by omega, rfl⟩, hlt, (Nat.mod_eq_of_lt hlt).symm⟩

theorem clusterOffset?_eq_some {c k : Nat} : fs.clusterOffset? c = some k ↔
    2 ≤ c ∧ (c - 2) * fs.sectorsPerCluster.toNat < 2 ^ 32 ∧ (c - 2) * fs.sectorsPerCluster.toNat = k := by
  simp only [clusterOffset?, Option.bind_eq_bind, Option.bind_eq_some_iff, sub32?_eq_some, mul32?_eq_some]
  constructor
  · rintro ⟨_, ⟨hc, rfl⟩, h⟩
    exact ⟨hc, h⟩
  · rintro ⟨hc, h⟩
    exact ⟨_, ⟨hc, rfl⟩, h⟩

/-- Where the checked arithmetic succeeds, `cluster_to_lba` wraps in its last sum at most. -/
theorem clusterToLba_of_some {c n k : Nat} (hc : c < 2 ^ 32) (hn : fs.firstDataSector? = some n)
    (hk : fs.clusterOffset? c = some k) : fs.clusterToLba c = wrap32 (n + k) := by
  obtain ⟨_, rfl⟩ := fs.firstDataSector?_eq_some.mp hn
  obtain ⟨h2, _, rfl⟩ := fs.clusterOffset?_eq_some.mp hk
  have hw : wrap32 (c + 2 ^ 32 - 2) = c - 2 := by
    rw [wrap32, show c + 2 ^ 32 - 2 = (c - 2) + 2 ^ 32 by omega, Nat.add_mod_right, Nat.mod_eq_of_lt (by omega)]
  rw [clusterToLba, hw]

theorem isSome_divCeil? : (∀ data : List UInt8, (divCeil? data.length fs.clusterSizeBytes).isSome) ↔
    fs.sectorsPerCluster.toNat ≠ 0 := by
  have hz : fs.clusterSizeBytes = 0 ↔ fs.sectorsPerCluster.toNat = 0 := by
    rw [clusterSizeBytes, sectorSize]
    omega
  rw [ne_eq, ← hz]
  constructor
  · intro h h0
    have := h []
    rw [divCeil?, if_pos h0] at this
    cases this
  · intro h data
    rw [divCeil?, if_neg h]
    rfl

/-- `write_file` begins with the division. -/
theorem run_writeFile_panic (name : Name) {data : List UInt8} (d : Disk)
    (h : divCeil? data.length fs.clusterSizeBytes = none) : (fs.writeFile name data).run d = (.error .panic, d) := by
  have hz : fs.clusterSizeBytes = 0 := by
    by_contra hne
    rw [divCeil?, if_neg hne] at h
    cases h
  rw [writeFile, if_pos hz]
  rfl

/-! ## What is accepted -/

/-- The checks of `mount`: block `p` is the boot sector of the first FAT32 partition. -/
structure Accepts (d : Disk) (p : Nat) : Prop where
  mbr : hasSignature (d 0) = true
  partition : findPartition (d 0) (List.range 4) = some p
  boot : hasSignature (d p) = true
  bytesPerSector : leNat ((d p).slice 11 2) = sectorSize
  fatSize : leNat ((d p).slice 36 4) ≠ 0

/-- The geometry in the bytes of a boot sector. -/
def parsed (p : Nat) (boot : Sector) : Fat32 where
  partitionStartLba := .ofNat p
  sectorsPerCluster := boot.nth 13
  reservedSectors := .ofNat (leNat (boot.slice 14 2))
  numFats := boot.nth 16
  fatSizeSectors := .ofNat (leNat (boot.slice 36 4))
  rootCluster := .ofNat (leNat (boot.slice 44 4))

theorem Accepts.unique {d : Disk} {p q : Nat} (hp : findPartition (d 0) (List.range 4) = some p) (h : Accepts d q) :
    q = p := by
  have := h.partition
  rw [hp] at this
  cases this
  rfl

theorem mount_ok_iff {d : Disk} {fs : Fat32} :
    (mount.run d).1 = .ok fs ↔ ∃ p, Accepts d p ∧ fs = parsed p (d p) := by
  rw [mount, run_readBlock_bind]
  cases hs : hasSignature (d 0) with
  | false =>
      simp only [Bool.not_false, if_true, Prog.run_fail, reduceCtorEq, false_iff]
      rintro ⟨p, ha, -⟩
      rw [ha.mbr] at hs
      cases hs
  | true =>
      rw [if_neg (by simp)]
      cases hp : findPartition (d 0) (List.range 4) with
      | none =>
          simp only [Prog.run_fail, reduceCtorEq, false_iff]
          rintro ⟨p, ha, -⟩
          rw [ha.partition] at hp
          cases hp
      | some p =>
          dsimp only
          rw [run_readBlock_bind]
          cases hb : hasSignature (d p) with
          | false =>
              simp only [Bool.not_false, if_true, Prog.run_fail, reduceCtorEq, false_iff]
              rintro ⟨q, ha, -⟩
              cases ha.unique hp
              rw [ha.boot] at hb
              cases hb
          | true =>
              rw [if_neg (by simp)]
              split
              next hbad =>
                simp only [Prog.run_fail, reduceCtorEq, false_iff]
                rintro ⟨q, ha, -⟩
                cases ha.unique hp
                exact hbad.elim (fun h => h ha.bytesPerSector) ha.fatSize
              next hgood =>
                rw [not_or, not_not] at hgood
                rw [Prog.run_pure, Except.ok.injEq]
                constructor
                · rintro rfl
                  exact ⟨p, ⟨hs, hp, hb, hgood.1, hgood.2⟩, rfl⟩
                · rintro ⟨q, ha, rfl⟩
                  cases ha.unique hp
                  rfl

/-! ## When the accepted geometry is sound -/

/-- The card mounts only with a geometry that the later operations can rely on. -/
def MountValidates (d : Disk) : Prop := ∀ fs, (mount.run d).1 = .ok fs → fs.Sound

/-- The bytes of the boot sector in block `p` that `mount` does not look at are in range. -/
structure SoundFields (p : Nat) (boot : Sector) : Prop where
  spc : boot.nth 13 ≠ 0
  fats : boot.nth 16 ≠ 0
  root : 2 ≤ leNat (boot.slice 44 4)
  dataSector : p + leNat (boot.slice 14 2) + (boot.nth 16).toNat * leNat (boot.slice 36 4) < 2 ^ 32
  rootOffset : (leNat (boot.slice 44 4) - 2) * (boot.nth 13).toNat < 2 ^ 32

theorem leNat_slice_lt (a : Sector) {off len : Nat} (h : off + len ≤ 512) : leNat (a.slice off len) < 256 ^ len := by
  have := leNat_lt (a.slice off len)
  rwa [a.length_slice h] at this

theorem findPartition_lt {sector : Sector} {is : List Nat} (his : ∀ i ∈ is, i < 4) {p : Nat}
    (h : findPartition sector is = some p) : p < 2 ^ 32 := by
  induction is with
  | nil => cases h
  | cons i is ih =>
      rw [findPartition] at h
      split at h
      · have hi := his i List.mem_cons_self
        rw [← Option.some_inj.mp h]
        exact Nat.lt_of_lt_of_eq (leNat_slice_lt sector (by omega)) (by decide)
      · exact ih (fun j hj => his j (List.mem_cons_of_mem _ hj)) h

theorem Accepts.lt {d : Disk} {p : Nat} (h : Accepts d p) : p < 2 ^ 32 :=
  findPartition_lt (by simp) h.partition

theorem toNat_partitionStartLba_parsed {p : Nat} (hp : p < 2 ^ 32) (boot : Sector) :
    (parsed p boot).partitionStartLba.toNat = p := UInt32.toNat_ofNat_of_lt hp

theorem toNat_reservedSectors_parsed (p : Nat) (boot : Sector) :
    (parsed p boot).reservedSectors.toNat = leNat (boot.slice 14 2) :=
  UInt16.toNat_ofNat_of_lt (leNat_slice_lt boot (by decide))

theorem toNat_fatSizeSectors_parsed (p : Nat) (boot : Sector) :
    (parsed p boot).fatSizeSectors.toNat = leNat (boot.slice 36 4) :=
  UInt32.toNat_ofNat_of_lt (leNat_slice_lt boot (by decide))

theorem toNat_rootCluster_parsed (p : Nat) (boot : Sector) :
    (parsed p boot).rootCluster.toNat = leNat (boot.slice 44 4) :=
  UInt32.toNat_ofNat_of_lt (leNat_slice_lt boot (by decide))

theorem one_le_toNat {x : UInt8} : 1 ≤ x.toNat ↔ x ≠ 0 := by
  rw [Nat.one_le_iff_ne_zero, ne_eq, ne_eq, ← UInt8.toNat_inj]
  rfl

theorem sound_parsed_iff {p : Nat} (hp : p < 2 ^ 32) (boot : Sector) : (parsed p boot).Sound ↔ SoundFields p boot := by
  have hlba := toNat_partitionStartLba_parsed hp boot
  have hres := toNat_reservedSectors_parsed p boot
  have hfat := toNat_fatSizeSectors_parsed p boot
  have hroot := toNat_rootCluster_parsed p boot
  constructor
  · intro h
    obtain ⟨_, hn⟩ := Option.isSome_iff_exists.mp h.dataSector_fits
    obtain ⟨_, hk⟩ := Option.isSome_iff_exists.mp h.rootOffset
    have hn := ((parsed p boot).firstDataSector?_eq_some.mp hn).1
    have hk := ((parsed p boot).clusterOffset?_eq_some.mp hk).2.1
    rw [hlba, hres, hfat] at hn
    rw [hroot] at hk
    exact ⟨one_le_toNat.mp h.spc_pos, one_le_toNat.mp h.fats_pos, hroot ▸ h.root_le, hn, hk⟩
  · intro h
    have hspc : 1 ≤ (parsed p boot).sectorsPerCluster.toNat := one_le_toNat.mpr h.spc
    have hn := h.dataSector
    have hk := h.rootOffset
    have h2 := h.root
    rw [← hlba, ← hres, ← hfat] at hn
    rw [← hroot] at hk h2
    exact {
      spc_pos := hspc
      fats_pos := one_le_toNat.mpr h.fats
      root_le := h2
      dataSector_fits := Option.isSome_iff_exists.mpr ⟨_, (parsed p boot).firstDataSector?_eq_some.mpr ⟨hn, rfl⟩⟩
      division := (parsed p boot).isSome_divCeil?.mpr (by omega)
      rootOffset := Option.isSome_iff_exists.mpr ⟨_, (parsed p boot).clusterOffset?_eq_some.mpr ⟨h2, hk, rfl⟩⟩ }

theorem mountValidates_iff (d : Disk) : MountValidates d ↔ ∀ p, Accepts d p → SoundFields p (d p) := by
  constructor
  · intro h p ha
    exact (sound_parsed_iff ha.lt _).mp (h _ (mount_ok_iff.mpr ⟨p, ha, rfl⟩))
  · intro h fs hfs
    obtain ⟨p, ha, rfl⟩ := mount_ok_iff.mp hfs
    exact (sound_parsed_iff ha.lt _).mpr (h p ha)

/-! ## A volume without sectors in its clusters -/

/-- An MBR whose first partition is a FAT32 partition in block 1. -/
def mbrSector : Sector :=
  (((Arr.fill 0 : Sector).put 450 [0x0C]).put 454 [1, 0, 0, 0]).put 510 [0x55, 0xAA]

/-- A boot sector with 512 bytes per sector, 32 reserved sectors, two FATs of 8 sectors, root cluster 2, and 0 sectors
per cluster. -/
def emptyClustersBoot : Sector :=
  ((((((Arr.fill 0 : Sector).put 11 [0x00, 0x02]).put 14 [32, 0]).put 16 [2]).put 36 [8, 0, 0, 0]).put 44
    [2, 0, 0, 0]).put 510 [0x55, 0xAA]

def emptyClustersCard : Disk := fun lba => if lba = 0 then mbrSector else if lba = 1 then emptyClustersBoot else .fill 0

def emptyClustersFs : Fat32 where
  partitionStartLba := 1
  sectorsPerCluster := 0
  reservedSectors := 32
  numFats := 2
  fatSizeSectors := 8
  rootCluster := 2

set_option maxRecDepth 8000 in
/-- The card mounts, and `write_file` on the mounted volume divides by zero. -/
theorem not_mountValidates_emptyClusters :
    (mount.run emptyClustersCard).1 = .ok emptyClustersFs ∧ ¬ MountValidates emptyClustersCard ∧
      ((emptyClustersFs.writeFile (.fill 0x41) []).run emptyClustersCard).1 = .error .panic := by
  have hmount : (mount.run emptyClustersCard).1 = .ok emptyClustersFs := by rfl
  refine ⟨hmount, fun h => ?_, ?_⟩
  · exact absurd (h _ hmount).spc_pos (by decide)
  · have hdiv : divCeil? ([] : List UInt8).length emptyClustersFs.clusterSizeBytes = none := by decide
    rw [emptyClustersFs.run_writeFile_panic _ _ hdiv]

end Fat32

end Ferro
